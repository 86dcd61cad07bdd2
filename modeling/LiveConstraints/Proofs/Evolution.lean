import LiveConstraints.Proofs.MoveSound
import LiveConstraints.Proofs.Running
/-!
# What a call leaves of an engine

Two relations between the engine before and after a computation. `Modifies` is for computations that
cannot lead back into the engine: a sequence of moves that leaves the guards, the deferred work and
the collected hooks alone, generations apart. `Evolves` is for the others: work may be deferred, and
hooks that were being collected may have been run.

The lemmas after that say how the small operations of `Step` and `Call` behave: looking something
up changes nothing and establishes that it exists, and every other one is a move.
-/

namespace LiveConstraints

namespace Engine

variable {e e' e'' : Engine}

/-- A sequence of moves that is no business of the calls in progress. -/
structure Modifies (e e' : Engine) : Prop where
  /-- The moves. -/
  path : Path e e'
  /-- The guards are as they were. -/
  guards : e'.guards = { e.guards with generation := e'.guards.generation }
  /-- Nothing was deferred. -/
  deferred : e'.deferred = e.deferred
  /-- No hook was collected. -/
  pending : e'.pendingHooks = e.pendingHooks

/-- A sequence of moves after which the calls in progress continue as they were. -/
structure Evolves (e e' : Engine) : Prop where
  /-- The moves. -/
  path : Path e e'
  /-- The guards are as they were. -/
  guards : e'.guards = { e.guards with generation := e'.guards.generation }
  /-- Hooks are collected only if they were. -/
  pending : e.pendingHooks = none → e'.pendingHooks = none

theorem guards_trans (h : e'.guards = { e.guards with generation := e'.guards.generation })
    (h' : e''.guards = { e'.guards with generation := e''.guards.generation }) :
    e''.guards = { e.guards with generation := e''.guards.generation } := by
  rw [h', h]

instance : IsPreorder Engine Modifies where
  refl _ := ⟨.refl, rfl, rfl, rfl⟩
  trans _ _ _ h h' := ⟨h.path.trans h'.path, guards_trans h.guards h'.guards,
    h'.deferred.trans h.deferred, h'.pending.trans h.pending⟩

instance : IsPreorder Engine Evolves where
  refl _ := ⟨.refl, rfl, id⟩
  trans _ _ _ h h' := ⟨h.path.trans h'.path, guards_trans h.guards h'.guards,
    fun hnone ↦ h'.pending (h.pending hnone)⟩

theorem Modifies.refl (e : Engine) : Modifies e e := refl_of Modifies e

theorem Modifies.trans (h : Modifies e e') (h' : Modifies e' e'') : Modifies e e'' :=
  trans_of Modifies h h'

theorem Evolves.refl (e : Engine) : Evolves e e := refl_of Evolves e

theorem Evolves.trans (h : Evolves e e') (h' : Evolves e' e'') : Evolves e e'' :=
  trans_of Evolves h h'

theorem Modifies.evolves (h : Modifies e e') : Evolves e e' where
  path := h.path
  guards := h.guards
  pending hnone := h.pending.trans hnone

theorem Modifies.sound (h : Modifies e e') (hs : e.Sound) : e'.Sound := hs.path h.path

theorem Evolves.sound (h : Evolves e e') (hs : e.Sound) : e'.Sound := hs.path h.path

/-- A move of the tables alone. -/
theorem modifies_of_move (h : Move e e') (guards : e'.guards = e.guards)
    (deferred : e'.deferred = e.deferred) (pending : e'.pendingHooks = e.pendingHooks) :
    Modifies e e' :=
  ⟨.single h, by rw [guards], deferred, pending⟩

/-- Constraints are numbered on and on. -/
theorem Modifies.next_le (h : Modifies e e') :
    e.constraints.next.index ≤ e'.constraints.next.index := by
  have hpath := h.path
  clear h
  induction hpath with
  | refl => exact Nat.le_refl _
  | tail _ hmove ih =>
    refine Nat.le_trans ih ?_
    cases hmove with
    | aside _ _ _ constraints => exact Nat.le_of_eq (by rw [constraints])
    | introduce => simp
    | _ => simp

/-- The guards change and change back. -/
theorem Modifies.bracket {f g : Guards → Guards}
    (h : Modifies { e with guards := f e.guards } e')
    (hg : ∀ generation, g { f e.guards with generation } = { e.guards with generation }) :
    Modifies e { e' with guards := g e'.guards } := by
  have hbefore : Move e { e with guards := f e.guards } :=
    .aside rfl rfl rfl rfl rfl fun h ↦ h.beside rfl rfl rfl rfl rfl
  have hafter : Move e' { e' with guards := g e'.guards } :=
    .aside rfl rfl rfl rfl rfl fun h ↦ h.beside rfl rfl rfl rfl rfl
  refine ⟨(h.path.head hbefore).tail hafter, ?_, h.deferred, h.pending⟩
  dsimp only
  rw [h.guards, hg]

theorem Evolves.bracket {f g : Guards → Guards}
    (h : Evolves { e with guards := f e.guards } e')
    (hg : ∀ generation, g { f e.guards with generation } = { e.guards with generation }) :
    Evolves e { e' with guards := g e'.guards } := by
  have hbefore : Move e { e with guards := f e.guards } :=
    .aside rfl rfl rfl rfl rfl fun h ↦ h.beside rfl rfl rfl rfl rfl
  have hafter : Move e' { e' with guards := g e'.guards } :=
    .aside rfl rfl rfl rfl rfl fun h ↦ h.beside rfl rfl rfl rfl rfl
  refine ⟨(h.path.head hbefore).tail hafter, ?_, h.pending⟩
  dsimp only
  rw [h.guards, hg]

/-- Events, the journal, sessions, default solvers and the generation are no matter. -/
theorem modifies_aside (objects : e'.objects = e.objects) (vars : e'.vars = e.vars)
    (constraints : e'.constraints = e.constraints) (solvers : e'.solvers = e.solvers)
    (config : e'.config = e.config) (deferred : e'.deferred = e.deferred)
    (pending : e'.pendingHooks = e.pendingHooks)
    (guards : e'.guards = { e.guards with generation := e'.guards.generation }) :
    Modifies e e' := by
  exact ⟨.single (.aside config objects vars constraints solvers fun h ↦
    h.beside config objects constraints deferred pending), guards, deferred, pending⟩

end Engine

open Engine

variable {α β : Type} {R : Engine → Engine → Prop} {e e' : Engine}

/-! ### Steps -/

namespace Step

theorem within_tick : Within Modifies e tick := modifies_aside rfl rfl rfl rfl rfl rfl rfl rfl

theorem within_elapsed : Within Modifies e elapsed := modifies_aside rfl rfl rfl rfl rfl rfl rfl rfl

theorem within_report (event : Event) : Within Modifies e (report event) :=
  modifies_aside rfl rfl rfl rfl rfl rfl rfl rfl

theorem within_record (entry : JournalEntry) : Within Modifies e (record entry) :=
  modifies_aside rfl rfl rfl rfl rfl rfl rfl rfl

/-- A variable changes apart from its links. -/
theorem within_modifyVariable {x : VarId} {f : Variable → Variable}
    (links : ∀ v, SameLinks v (f v)) : Within Modifies e (modifyVariable x f) := by
  refine modifies_of_move (.retouch _ ?_ ?_) rfl rfl rfl
  · intro y w hw
    obtain ⟨v, hv, ⟨-, rfl⟩ | ⟨-, rfl⟩⟩ := exists_of_modify hw
    · exact ⟨v, hv, links v⟩
    · exact ⟨w, hv, rfl, rfl, rfl⟩
  · exact fun y v hv ↦ ⟨_, get?_modify_of_get? hv⟩

/-- A constraint changes in what the invariant does not see. -/
theorem within_modifyConstraint {id : ConstraintId} {f : Constraint → Constraint}
    (core : ∀ c, SameCore c (f c)) : Within Modifies e (modifyConstraint id f) :=
  modifies_of_move (.adjust id f core) rfl rfl rfl

/-- A solver changes in nothing observable, or adopts values that meet its clauses. -/
theorem within_modifySolver {s : SolverId} {f : Solver → Solver}
    (adopts : ∀ solver, e.solvers.get? s = some solver →
      solver.Alike (f solver) ∨ solver.Adopts (f solver)) :
    Within Modifies e (modifySolver s f) :=
  modifies_of_move (.adopt s f adopts) rfl rfl rfl

/-- The same of a change to a new state. -/
theorem modifies_adopt {s : SolverId} {solver solver' : Solver}
    (hsolver : e.solvers.get? s = some solver)
    (adopts : solver.Alike solver' ∨ solver.Adopts solver') :
    Modifies e { e with solvers := e.solvers.modify s fun _ ↦ solver' } := by
  refine modifies_of_move (.adopt s _ fun other hother ↦ ?_) rfl rfl rfl
  obtain rfl : other = solver := Option.some.inj (hother.symm.trans hsolver)
  exact adopts

/-- A call on a solver that exists. -/
theorem callSolver?_eq (s : SolverId) (f : Solver → α × Solver) (e : Engine) :
    callSolver? s f e = match e.solvers.get? s with
      | none => (none, e)
      | some solver =>
        (some (f solver).1, { e with solvers := e.solvers.modify s fun _ ↦ (f solver).2 }) := by
  unfold callSolver?
  rw [bind_run]
  show (match e.solvers.get? s with
    | none => (pure none : Step (Option α))
    | some solver => do
      modifySolver s fun _ ↦ (f solver).2
      return some (f solver).1) e = _
  cases e.solvers.get? s <;> rfl

end Step

/-! ### Calls -/

namespace Call

/-- The outcome of looking something up. -/
def found (o : Option α) (err : EngineError) : Except Halt α :=
  o.elim (.error (.failed err)) .ok

theorem variableAt_eq (x : VarId) (e : Engine) :
    variableAt x e = (found (e.vars.get? x) (.mismatch (.released x)), e) := by
  rw [variableAt, get_run]
  cases e.vars.get? x <;> rfl

theorem constraintAt_eq (id : ConstraintId) (e : Engine) :
    constraintAt id e = (found (e.constraints.get? id) (.unknownConstraint id), e) := by
  rw [constraintAt, get_run]
  cases e.constraints.get? id <;> rfl

theorem changeConstraint_eq {id : ConstraintId} {c : Constraint}
    (hc : e.constraints.get? id = some c) (f : Constraint → Constraint) :
    changeConstraint id f e = (.ok (), { e with constraints := e.constraints.modify id f }) := by
  have hlookup := constraintAt_eq id e
  rw [hc] at hlookup
  exact bind_of_ok hlookup

theorem solverAt_eq (s : SolverId) (e : Engine) :
    solverAt s e = (found (e.solvers.get? s) (.unknownSolver s), e) := by
  rw [solverAt, get_run]
  cases e.solvers.get? s <;> rfl

theorem objectAt_eq (obj : ObjectId) (e : Engine) :
    objectAt obj e = (found (e.objects.get? obj) (.unknownObject obj), e) := by
  rw [objectAt, get_run]
  cases e.objects.get? obj <;> rfl

/-- A successful look-up found something and left the engine as it was. -/
theorem of_lookup_ok {m : Call α} {o : Option α} {err : EngineError} {a : α}
    (hm : m e = (found o err, e)) (h : m e = (.ok a, e')) : o = some a ∧ e' = e := by
  rw [hm] at h
  obtain ⟨hfound, rfl⟩ := Prod.mk.inj h
  cases o with
  | none => cases hfound
  | some b =>
    cases hfound
    exact ⟨rfl, rfl⟩

/-- What follows a look-up succeeds only if something was found. -/
theorem of_lookup_bind_ok {m : Call α} {f : α → Call β} {o : Option α} {err : EngineError} {b : β}
    (hm : m e = (found o err, e)) (h : (m >>= f) e = (.ok b, e')) :
    ∃ a, o = some a ∧ f a e = (.ok b, e') := by
  obtain ⟨a, e₁, hrun, h⟩ := of_bind_ok h
  obtain ⟨rfl, heq⟩ := of_lookup_ok hm hrun
  exact ⟨a, rfl, heq ▸ h⟩

theorem slotAt_eq (obj : ObjectId) (field : String) (e : Engine) :
    slotAt obj field e = match e.slot? obj field with
      | .ok slot => (.ok slot, e)
      | .error err => (.error (.failed err), e) := by
  show ofExcept (e.slot? obj field) e = _
  cases e.slot? obj field <;> rfl

/-- The guards change, a computation succeeds, and the guards change back. -/
theorem bracket_of_ok {f g : Guards → Guards} {m : Call α} {k : α → Call β} {a : α}
    (hrun : m { e with guards := f e.guards } = (.ok a, e')) : (do
      Step.modifyGuards f
      let a ← m
      Step.modifyGuards g
      k a : Call β) e = k a { e' with guards := g e'.guards } := by
  show (m >>= fun a ↦ do Step.modifyGuards g; k a) { e with guards := f e.guards } = _
  rw [bind_of_ok hrun]
  rfl

/-- The guards change, and a computation does not succeed. -/
theorem bracket_of_error {f g : Guards → Guards} {m : Call α} {k : α → Call β} {halt : Halt}
    (hrun : m { e with guards := f e.guards } = (.error halt, e')) : (do
      Step.modifyGuards f
      let a ← m
      Step.modifyGuards g
      k a : Call β) e = (.error halt, e') := by
  show (m >>= fun a ↦ do Step.modifyGuards g; k a) { e with guards := f e.guards } = _
  rw [bind_of_error hrun]

section Preorder

variable [IsPreorder Engine R]

theorem callSolver_eq (s : SolverId) (f : Solver → α × Solver) (e : Engine) :
    callSolver s f e = match e.solvers.get? s with
      | none => (.error (.failed (.unknownSolver s)), e)
      | some solver =>
        (.ok (f solver).1, { e with solvers := e.solvers.modify s fun _ ↦ (f solver).2 }) := by
  have hlift := lift_run (Step.callSolver? s f) e
  rw [Step.callSolver?_eq] at hlift
  unfold callSolver
  cases hsolver : e.solvers.get? s with
  | none =>
    rw [hsolver] at hlift
    rw [bind_of_ok hlift]
    rfl
  | some solver =>
    rw [hsolver] at hlift
    rw [bind_of_ok hlift]
    rfl

/-- The outcome of a call on a solver, as the engine reports it. -/
def reported (name : String) (r : Except SolverError α) : Except Halt α :=
  r.mapError fun err ↦ .failed (.ofSolver name err)

theorem askSolver_eq (s : SolverId) (f : Solver → Except SolverError α × Solver) (e : Engine) :
    askSolver s f e = match e.solvers.get? s with
      | none => (.error (.failed (.unknownSolver s)), e)
      | some solver => (reported (e.solverName s) (f solver).1,
        { e with solvers := e.solvers.modify s fun _ ↦ (f solver).2 }) := by
  have hrun := callSolver_eq s f e
  rw [askSolver, get_run]
  cases hsolver : e.solvers.get? s with
  | none =>
    rw [hsolver] at hrun
    rw [bind_of_error hrun]
  | some solver =>
    rw [hsolver] at hrun
    rw [bind_of_ok hrun]
    dsimp only
    cases (f solver).1 <;> rfl

theorem Within.of_callSolver {s : SolverId} {f : Solver → α × Solver}
    (hm : ∀ solver, e.solvers.get? s = some solver →
      R e { e with solvers := e.solvers.modify s fun _ ↦ (f solver).2 }) :
    Within R e (callSolver s f) := by
  rw [Within, callSolver_eq]
  cases hsolver : e.solvers.get? s with
  | none => exact fun _ ↦ refl_of R e
  | some solver => exact fun _ ↦ hm solver hsolver

/-- What follows a call on a solver runs if the solver exists. -/
theorem Within.callSolver_bind {s : SolverId} {f : Solver → α × Solver} {g : α → Call β}
    (hm : ∀ solver, e.solvers.get? s = some solver →
      R e { e with solvers := e.solvers.modify s fun _ ↦ (f solver).2 })
    (hg : ∀ solver, e.solvers.get? s = some solver →
      Within R { e with solvers := e.solvers.modify s fun _ ↦ (f solver).2 } (g (f solver).1)) :
    Within R e (callSolver s f >>= g) := by
  have hrun := callSolver_eq s f e
  cases hsolver : e.solvers.get? s with
  | none =>
    rw [hsolver] at hrun
    rw [Within, bind_of_error hrun]
    exact fun _ ↦ refl_of R e
  | some solver =>
    rw [hsolver] at hrun
    rw [Within, bind_of_ok hrun]
    exact fun hne ↦ trans_of R (hm solver hsolver) (hg solver hsolver hne)

/-- A call on a solver that may fail. -/
theorem Within.of_askSolver {s : SolverId} {f : Solver → Except SolverError α × Solver}
    (hm : ∀ solver, e.solvers.get? s = some solver →
      R e { e with solvers := e.solvers.modify s fun _ ↦ (f solver).2 }) :
    Within R e (askSolver s f) := by
  refine .get_bind ((Within.of_callSolver hm).bind fun r _ _ _ ↦ ?_)
  cases r with
  | ok a => exact .pure a
  | error err => exact .fail _

/-- Looking something up changes nothing, and what follows runs if it was found. -/
theorem Within.lookup_bind {m : Call α} {o : Option α} {err : EngineError} {f : α → Call β}
    (hm : m e = (found o err, e)) (h : ∀ a, o = some a → Within R e (f a)) : Within R e (m >>= f) := by
  cases o with
  | none =>
    rw [Within, bind_of_error hm]
    exact fun _ ↦ refl_of R e
  | some a =>
    rw [Within, bind_of_ok hm]
    exact h a rfl

theorem Within.variableAt_bind {x : VarId} {f : Variable → Call β}
    (h : ∀ v, e.vars.get? x = some v → Within R e (f v)) : Within R e (variableAt x >>= f) :=
  .lookup_bind (variableAt_eq x e) h

theorem Within.constraintAt_bind {id : ConstraintId} {f : Constraint → Call β}
    (h : ∀ c, e.constraints.get? id = some c → Within R e (f c)) :
    Within R e (constraintAt id >>= f) :=
  .lookup_bind (constraintAt_eq id e) h

theorem Within.solverAt_bind {s : SolverId} {f : Solver → Call β}
    (h : ∀ solver, e.solvers.get? s = some solver → Within R e (f solver)) :
    Within R e (solverAt s >>= f) :=
  .lookup_bind (solverAt_eq s e) h

theorem Within.objectAt_bind {obj : ObjectId} {f : HostObject → Call β}
    (h : ∀ o, e.objects.get? obj = some o → Within R e (f o)) :
    Within R e (objectAt obj >>= f) :=
  .lookup_bind (objectAt_eq obj e) h

theorem Within.slotAt_bind {obj : ObjectId} {field : String} {f : FieldSlot → Call β}
    (h : ∀ slot, e.slot? obj field = .ok slot → Within R e (f slot)) :
    Within R e (slotAt obj field >>= f) := by
  cases hslot : e.slot? obj field with
  | error err =>
    have hrun := slotAt_eq obj field e
    rw [hslot] at hrun
    rw [Within, bind_of_error hrun]
    exact fun _ ↦ refl_of R e
  | ok slot =>
    have hrun := slotAt_eq obj field e
    rw [hslot] at hrun
    rw [Within, bind_of_ok hrun]
    exact h slot hslot

theorem Gives.lookup_bind {m : Call α} {o : Option α} {err : EngineError} {f : α → Call β}
    {Q : β → Engine → Prop} (hm : m e = (found o err, e))
    (h : ∀ a, o = some a → Gives R e (f a) Q) : Gives R e (m >>= f) Q where
  within := .lookup_bind hm fun a ha ↦ (h a ha).within
  result b e' hrun := by
    obtain ⟨a, e₁, hlookup, hrest⟩ := of_bind_ok hrun
    obtain ⟨ha, rfl⟩ := of_lookup_ok hm hlookup
    exact (h a ha).result b e' hrest

/-- What follows a look-up, and what is left where nothing was found. -/
theorem Yields.lookup_bind {m : Call α} {o : Option α} {err : EngineError} {f : α → Call β}
    {P : Except Halt β → Engine → Prop} (hm : m e = (found o err, e))
    (hnone : o = none → P (.error (.failed err)) e) (hsome : ∀ a, o = some a → Yields e (f a) P) :
    Yields e (m >>= f) P := by
  cases o with
  | none =>
    rw [Yields, bind_of_error hm]
    exact fun _ ↦ hnone rfl
  | some a =>
    rw [Yields, bind_of_ok hm]
    exact hsome a rfl

theorem Yields.constraintAt_bind {id : ConstraintId} {f : Constraint → Call β}
    {P : Except Halt β → Engine → Prop}
    (hnone : e.constraints.get? id = none → P (.error (.failed (.unknownConstraint id))) e)
    (hsome : ∀ c, e.constraints.get? id = some c → Yields e (f c) P) :
    Yields e (constraintAt id >>= f) P :=
  .lookup_bind (constraintAt_eq id e) hnone hsome

theorem Gives.variableAt_bind {x : VarId} {f : Variable → Call β} {Q : β → Engine → Prop}
    (h : ∀ v, e.vars.get? x = some v → Gives R e (f v) Q) : Gives R e (variableAt x >>= f) Q :=
  .lookup_bind (variableAt_eq x e) h

theorem Gives.solverAt_bind {s : SolverId} {f : Solver → Call β} {Q : β → Engine → Prop}
    (h : ∀ solver, e.solvers.get? s = some solver → Gives R e (f solver) Q) :
    Gives R e (solverAt s >>= f) Q :=
  .lookup_bind (solverAt_eq s e) h

theorem Gives.objectAt_bind {obj : ObjectId} {f : HostObject → Call β} {Q : β → Engine → Prop}
    (h : ∀ o, e.objects.get? obj = some o → Gives R e (f o) Q) : Gives R e (objectAt obj >>= f) Q :=
  .lookup_bind (objectAt_eq obj e) h

theorem Gives.slotAt_bind {obj : ObjectId} {field : String} {f : FieldSlot → Call β}
    {Q : β → Engine → Prop} (h : ∀ slot, e.slot? obj field = .ok slot → Gives R e (f slot) Q) :
    Gives R e (slotAt obj field >>= f) Q where
  within := .slotAt_bind fun slot hslot ↦ (h slot hslot).within
  result b e' hrun := by
    obtain ⟨slot, e₁, hlookup, hrest⟩ := of_bind_ok hrun
    rw [slotAt_eq] at hlookup
    split at hlookup
    · next hslot =>
      cases hlookup
      exact (h slot hslot).result b e' hrest
    · cases hlookup

/-- A computation between two changes of the guards. It may not fail, for then the guards would not
change back. -/
theorem Within.bracket {S : Engine → Engine → Prop} {f g : Guards → Guards} {m : Call α}
    {k : α → Call β} (hm : Within S { e with guards := f e.guards } m)
    (hne : ∀ err, (m { e with guards := f e.guards }).1 ≠ .error (.failed err))
    (hR : ∀ e₁, S { e with guards := f e.guards } e₁ → R e { e₁ with guards := g e₁.guards })
    (hk : ∀ a e₁, m { e with guards := f e.guards } = (.ok a, e₁) →
      S { e with guards := f e.guards } e₁ → Within R { e₁ with guards := g e₁.guards } (k a)) :
    Within R e (do
      Step.modifyGuards f
      let a ← m
      Step.modifyGuards g
      k a) := by
  intro hreturns
  rcases hrun : m { e with guards := f e.guards } with ⟨(err | -) | a, e₁⟩
  · exact absurd (by rw [hrun]) (hne err)
  · exact absurd (by rw [bracket_of_error hrun]) hreturns
  · have h₁ := hm.of_ok hrun
    rw [bracket_of_ok hrun] at hreturns ⊢
    exact trans_of R (hR e₁ h₁) (hk a e₁ hrun h₁ hreturns)

end Preorder

end Call

end LiveConstraints

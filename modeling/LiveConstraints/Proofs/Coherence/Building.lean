import LiveConstraints.Proofs.Coherence.Searching
import LiveConstraints.Proofs.Incidence.Moving
import LiveConstraints.Proofs.Reentrant
import LiveConstraints.Proofs.Transplanting
/-!
# Building, switching and releasing keep engines coherent

While a constraint is realized it is off, and what is found is not remembered. So a variable that joins
it leaves what counts credible (`Engine.Coherent.join`), and a fresh engine stays fresh
(`Call.prepares_realize`). Whatever else changes what searches depend on is followed by a tick, and up
to the tick it is enough that the engine is timely. Rebuilding starts with one, since the constraint
was on, and its variables are let go of in a fresh engine (`Call.coheres_reroute`).
-/

namespace LiveConstraints

open Engine

variable {α β : Type} {e e' : Engine} {x : VarId} {v : Variable} {id : ConstraintId} {s : SolverId}
  {d : Option Defining}

/-! ### Joining a constraint -/

/-- A member that a search passes over may join a set. -/
theorem SortedSet.find?_members_add {κ : Type} [DecidableEq κ] [LT κ] [DecidableLT κ]
    {p : κ → Bool} {k : κ} (hk : p k = false) (m : SortedSet κ) :
    (m.add k).members.find? p = m.members.find? p := by
  have hentries : ∀ es : List (κ × Unit),
      ((SortedMap.insertIn k () es).map Prod.fst).find? p = (es.map Prod.fst).find? p := by
    intro es
    induction es with
    | nil => simp [SortedMap.insertIn, hk]
    | cons b es ih =>
      obtain ⟨k', _⟩ := b
      unfold SortedMap.insertIn
      split
      · next heq => simp [← heq, hk]
      · split
        · simp [hk]
        · simp [List.find?_cons, ih]
  exact hentries m.entries

namespace Engine

theorem off_iff : e.Off id ↔ ∀ s, e.enabledFor s id = false := by
  unfold Off enabledFor
  cases e.constraints.get? id with
  | none => simp
  | some c => cases hc : c.enabled <;> simp [hc]

end Engine

/-- A variable that takes part in one more constraint. -/
def Variable.joining (v : Variable) (id : ConstraintId) : Variable :=
  { v with constraints := v.constraints.add id }

theorem Variable.isEmpty_joining : (v.joining id).constraints.isEmpty = false := by
  refine Bool.eq_false_iff.2 fun hempty ↦ ?_
  have hmem : id ∈ SortedSet.members (v.joining id).constraints :=
    SortedSet.mem_members_add.2 (.inl rfl)
  rw [SortedSet.members, SortedMap.keys, List.isEmpty_iff.1 hempty] at hmem
  cases hmem

namespace Engine

/-- No constraint is found where there is none. -/
theorem enabledConstraint?_of_isEmpty (h : v.constraints.isEmpty = true) (s : SolverId) :
    e.enabledConstraint? v s = none := by
  rw [enabledConstraint?, SortedSet.members, SortedMap.keys, List.isEmpty_iff.1 h]
  rfl

/-- Searches find the same for a variable that takes part in no constraint anyway. -/
theorem searchDefining_unconstrained (h : v.constraints.isEmpty = true) :
    e.searchDefining v.unconstrained = e.searchDefining v :=
  searchDefining_of_candidates rfl fun b _ ↦
    definingCandidate?_congr (enabledConstraint?_of_isEmpty h b.1).symm h.symm rfl

/-- A variable that joins a constraint that is off leaves what was credible credible. -/
theorem Credible.join (h : e.Credible v d) (hoff : e.Off id) : e.Credible (v.joining id) d := by
  have hfirst : ∀ s, e.enabledConstraint? (v.joining id) s = e.enabledConstraint? v s :=
    fun s ↦ SortedSet.find?_members_add (off_iff.1 hoff s) v.constraints
  have hcount : e.constrainingSolvers (v.joining id) = e.constrainingSolvers v :=
    constrainingSolvers_congr rfl hfirst
  refine ⟨hcount ▸ h.single, ?_⟩
  obtain hd | ⟨hnone, hd⟩ := h.found
  · cases hempty : v.constraints.isEmpty with
    | true =>
      -- it is the first constraint of the variable
      have hnone : ∀ s, e.enabledConstraint? v s = none := enabledConstraint?_of_isEmpty hempty
      exact .inr ⟨fun s ↦ (hfirst s).trans (hnone s), hd.trans (searchDefining_unconstrained hempty).symm⟩
    | false =>
      have hsearch : e.searchDefining (v.joining id) = e.searchDefining v :=
        searchDefining_of_candidates rfl fun b _ ↦
          definingCandidate?_congr (hfirst b.1) (Variable.isEmpty_joining.trans hempty.symm) rfl
      exact .inl (hd.trans hsearch.symm)
  · exact .inr ⟨fun s ↦ (hfirst s).trans (hnone s), hd⟩

/-! ### Realizing -/

/-- What realizing a constraint that is off keeps while it is current. -/
structure Prepares (id : ConstraintId) (e e' : Engine) : Prop where
  current : e'.guards.current = e.guards.current
  off : e.Off id → e'.Off id
  coheres : e.Off id → Coheres e e'
  freshens : e.guards.current.isSome = true → Freshens e e'

instance : IsPreorder Engine (Prepares id) where
  refl e := ⟨rfl, fun h ↦ h, fun _ ↦ refl_of Coheres e, fun _ ↦ refl_of Freshens e⟩
  trans _ _ _ h h' := ⟨h'.current.trans h.current, fun hoff ↦ h'.off (h.off hoff),
    fun hoff ↦ trans_of Coheres (h.coheres hoff) (h'.coheres (h.off hoff)),
    fun hsome ↦ trans_of Freshens (h.freshens hsome) (h'.freshens (h.current ▸ hsome))⟩

theorem Off.of_enabledFor (hoff : e.Off id) (enabled : e'.enabledFor = e.enabledFor) : e'.Off id :=
  off_iff.2 fun s ↦ enabled ▸ off_iff.1 hoff s

theorem Undisturbed.prepares (h : Undisturbed e e')
    (current : e'.guards.current = e.guards.current) : Prepares id e e' :=
  ⟨current, fun hoff ↦ hoff.of_enabledFor h.enabled, fun _ ↦ h.coheres, fun _ ↦ h.freshens⟩

theorem Ticks.prepares (h : Ticks e e') (current : e'.guards.current = e.guards.current)
    (enabled : e'.enabledFor = e.enabledFor) : Prepares id e e' :=
  ⟨current, fun hoff ↦ hoff.of_enabledFor enabled, fun _ ↦ h.coheres, fun _ ↦ h.freshens⟩

instance : Reads (Prepares id) where
  defining {e} x := by
    have hrecalls : Recalls e (Step.defining x e).2 := Step.recalls_defining x
    exact ⟨by rw [hrecalls.guards],
      fun hoff ↦ hoff.of_enabledFor (enabledFor_congr hrecalls.constraints),
      fun _ ↦ Step.coheres_defining x, fun hsome ↦ Step.freshens_defining hsome x⟩

/-- A variable joins the constraint. -/
theorem prepares_join (x : VarId) :
    Prepares id e { e with vars := e.vars.modify x fun v => v.joining id } := by
  have hadvances : Advances e { e with vars := e.vars.modify x fun v => v.joining id } :=
    Ordinary.retouch x fun _ ↦ .of_bindings rfl rfl rfl rfl rfl
  refine ⟨rfl, fun hoff ↦ hoff, fun hoff hc ↦ ?_, fun _ ↦ hadvances.freshens fun hw hmemo ↦ ?_⟩
  · refine ⟨hadvances.timely hc.toTimely, fun hw hmemo ↦ ?_⟩
    obtain ⟨v, hv, ⟨rfl, rfl⟩ | ⟨-, rfl⟩⟩ := exists_of_modify hw
    · exact ((hc.credible hv hmemo).join hoff).congr rfl rfl rfl fun _ _ ↦ rfl
    · exact (hc.credible hv hmemo).congr rfl rfl rfl fun _ _ ↦ rfl
  · obtain ⟨v, hv, ⟨rfl, rfl⟩ | ⟨-, rfl⟩⟩ := exists_of_modify hw
    · exact ⟨v, hv, hmemo⟩
    · exact ⟨_, hv, hmemo⟩

end Engine

namespace Call

theorem prepares_allocate (blank : Blank v) : Within (Prepares id) e (allocate v) := by
  have hadvances : Advances e { e with vars := e.vars.insert v } := Ordinary.allocate blank
  have hticks : Ticks e (Step.tick { e with vars := e.vars.insert v }).2 :=
    fun ho ↦ Step.ticks_tick (hadvances.timely ho)
  exact fun _ ↦ hticks.prepares rfl rfl

theorem prepares_setSlot (obj : ObjectId) (field : String) (slot : FieldSlot) :
    Within (Prepares id) e (setSlot obj field slot) :=
  .objectAt_bind fun _ _ _ ↦ Undisturbed.prepares (undisturbed_aside rfl rfl rfl rfl) rfl

theorem prepares_modifyVariable {f : Variable → Variable}
    (same : ∀ v, (f v).definingMemo = v.definingMemo ∧ (f v).bindings = v.bindings ∧
      (f v).constraints = v.constraints) : Step.Within (Prepares id) e (Step.modifyVariable x f) :=
  (undisturbed_variable same).prepares rfl

theorem prepares_fieldVariable (obj : ObjectId) (name : String) (parent : Option VarId) :
    Within (Prepares id) e (fieldVariable obj name parent) := by
  refine .slotAt_bind fun slot _ ↦ ?_
  cases slot with
  | intercepted x =>
    refine .lift_bind (prepares_modifyVariable fun v ↦ ?_) fun _ _ _ _ ↦ .pure _
    split <;> exact ⟨rfl, rfl, rfl⟩
  | plain shadow =>
    refine (prepares_allocate ⟨rfl, rfl, rfl, rfl⟩).bind fun _ _ _ _ ↦ ?_
    exact (prepares_setSlot _ _ _).bind fun _ _ _ _ ↦ .pure _

theorem prepares_partVariable (parent : VarId) (name : String) :
    Within (Prepares id) e (partVariable parent name) := by
  refine .variableAt_bind fun p _ ↦ ?_
  split
  · exact .pure _
  · refine .lift_bind (Step.reads_read parent) fun v e₁ _ _ ↦ ?_
    split
    · exact .fail _
    · refine (prepares_allocate ⟨rfl, rfl, rfl, rfl⟩).bind fun _ _ _ _ ↦ ?_
      refine .lift_bind (prepares_modifyVariable fun _ ↦ ?_) fun _ _ _ _ ↦ .pure _
      exact ⟨rfl, rfl, rfl⟩

/-- A new binding, after which the generation ticks. -/
theorem prepares_insert {h : Option ExtVar} (hgrants : e.Grants (s, h)) :
    Within (Prepares id) e (do
      Step.modifyVariable x fun v => { v with bindings := v.bindings.insert s h }
      Step.tick) := by
  let bound : Engine := { e with vars := e.vars.modify x fun v =>
    { v with bindings := v.bindings.insert s h } }
  have hadvances : Advances e bound := Ordinary.retouch x fun _ ↦ .bind hgrants
  have hticks : Ticks e (Step.tick bound).2 := fun ho ↦ Step.ticks_tick (hadvances.timely ho)
  exact fun _ ↦ hticks.prepares rfl rfl

theorem prepares_bind (x : VarId) (s : SolverId) : Within (Prepares id) e (bind x s) := by
  refine .variableAt_bind fun v _ ↦ ?_
  split
  · refine .lift_bind (Step.reads_read x) fun value e₁ _ _ ↦ .get_bind ?_
    refine .callSolver_bind (fun solver hsolver ↦ ?_) fun solver hsolver ↦ ?_
    · exact Undisturbed.prepares (undisturbed_solver fun other hother ↦ by
        cases hsolver.symm.trans hother
        exact (Solver.operates_declare _ _).weight) rfl
    · exact prepares_insert (grants_declare hsolver value _)
  · exact .pure _

theorem prepares_callSolver {f : Solver → α × Solver}
    (weight : ∀ solver : Solver, (f solver).2.weight = solver.weight) :
    Within (Prepares id) e (callSolver s f) := .of_callSolver fun solver hsolver ↦
  Undisturbed.prepares (undisturbed_solver fun other hother ↦ by
    cases hsolver.symm.trans hother
    exact weight solver) rfl

theorem prepares_changeConstraint {id' : ConstraintId} {f : Constraint → Constraint}
    (same : ∀ c, (f c).solver = c.solver ∧ (f c).enabled = c.enabled) :
    Within (Prepares id) e (changeConstraint id' f) :=
  .constraintAt_bind fun _ _ ↦ .lift (Undisturbed.prepares (undisturbed_constraint same) rfl)

theorem prepares_attach (x : VarId) : Within (Prepares id) e (attach id s x) := by
  refine .lift_bind (prepares_join x) fun _ e₁ _ _ ↦ ?_
  refine (prepares_changeConstraint fun c ↦ ?_).bind fun _ e₂ _ _ ↦ prepares_bind x s
  split <;> exact ⟨rfl, rfl⟩

instance {options : ConstraintOptions} : Evaluates ⟨id, s, options⟩ (Prepares id) where
  touchField obj name parent := (prepares_fieldVariable obj name parent).bind fun x _ _ _ ↦
    (prepares_attach x).bind fun _ _ _ _ ↦ .pure _
  touchPart parent name := (prepares_partVariable parent name).bind fun x _ _ _ ↦
    (prepares_attach x).bind fun _ _ _ _ ↦ .pure _
  pin x := by
    refine .get_bind ?_
    split
    · exact prepares_callSolver fun solver ↦ solver.weight_setReadonly _ _
    · exact .pure _
  compile t := prepares_callSolver fun solver ↦ (solver.sameFlags_compile t).weight

end Call

namespace Engine

/-- What realizing a constraint keeps. -/
structure Rebuilds (id : ConstraintId) (e e' : Engine) : Prop where
  off : e.Off id → e'.Off id
  coheres : e.Off id → Coheres e e'
  freshens : Freshens e e'

instance : IsPreorder Engine (Rebuilds id) where
  refl e := ⟨fun h ↦ h, fun _ ↦ refl_of Coheres e, refl_of Freshens e⟩
  trans _ _ _ h h' := ⟨fun hoff ↦ h'.off (h.off hoff),
    fun hoff ↦ trans_of Coheres (h.coheres hoff) (h'.coheres (h.off hoff)),
    trans_of Freshens h.freshens h'.freshens⟩

theorem Undisturbed.rebuilds (h : Undisturbed e e') : Rebuilds id e e' :=
  ⟨fun hoff ↦ hoff.of_enabledFor h.enabled, fun _ ↦ h.coheres, h.freshens⟩

/-- Which constraint is current is no matter. -/
theorem undisturbed_current (c : Option (ConstraintId × SolverId)) :
    Undisturbed e { e with guards := { e.guards with current := c } } :=
  undisturbed_aside rfl rfl rfl rfl

/-- The constraint is current meanwhile. -/
theorem Prepares.rebuilds {c : ConstraintId × SolverId}
    (h : Prepares id { e with guards := { e.guards with current := some c } } e') :
    Rebuilds id e { e' with guards := { e'.guards with current := e.guards.current } } := by
  have hafter : Rebuilds id { e with guards := { e.guards with current := some c } } e' :=
    ⟨h.off, h.coheres, h.freshens rfl⟩
  exact trans_of (Rebuilds id) (undisturbed_current _).rebuilds
    (trans_of (Rebuilds id) hafter (undisturbed_current _).rebuilds)

end Engine

namespace Call

theorem rebuilds_changeConstraint {id' : ConstraintId} {f : Constraint → Constraint}
    (same : ∀ c, (f c).solver = c.solver ∧ (f c).enabled = c.enabled) :
    Within (Rebuilds id) e (changeConstraint id' f) :=
  .constraintAt_bind fun _ _ ↦ .lift (Undisturbed.rebuilds (undisturbed_constraint same))

/-- **Realizing a constraint** that is off keeps engines coherent, and fresh. -/
theorem rebuilds_realize (id : ConstraintId) : Within (Rebuilds id) e (realize id) := by
  refine .constraintAt_bind fun c _ ↦ .get_bind ?_
  have hcompile : ∀ e₁, Within (Prepares id) e₁
      (attempt (evaluatePredicate ⟨id, c.solver, c.options⟩ c.predicate)) :=
    fun _ ↦ (evaluates_evaluatePredicate _).attempt
  refine .bracket (g := fun g ↦ { g with current := e.guards.current }) (hcompile _)
    (attempt_ne_failed _ _) (fun e₁ h₁ ↦ ?_) fun result e₁ _ _ ↦ .get_bind ?_
  · exact Prepares.rebuilds h₁
  · refine (Within.ofExcept result).bind fun compiled e₂ _ _ ↦ ?_
    cases compiled with
    | primitive p => exact rebuilds_changeConstraint fun _ ↦ ⟨rfl, rfl⟩
    | native b =>
      cases b with
      | true =>
        dsimp only
        split
        · exact rebuilds_changeConstraint fun _ ↦ ⟨rfl, rfl⟩
        · exact .fail _
      | false => exact .fail _
    | value v =>
      dsimp only
      split
      · exact .pure _
      · exact .fail _

end Call

/-! ### Changes that a tick follows on -/

namespace Step

/-- What comes before a tick has to keep the engine timely only. -/
theorem Within.advance {m : Step α} {k : α → Step β} (hm : Within Advances e m)
    (hk : ∀ a e', Within Ticks e' (k a)) : Within Ticks e (m >>= k) :=
  fun ho ↦ hk _ _ (hm.timely ho)

theorem ticks_disable {c : Constraint} (hc : e.constraints.get? id = some c)
    (henabled : c.enabled = true) : Within Ticks e (disable id) := by
  refine .get_bind ?_
  rw [hc]
  dsimp only
  rw [if_pos henabled]
  refine .advance (operating_modifyAll fun p solver ↦ ?_) fun _ e₁ ↦ ?_
  · exact (Solver.sameFlags_setEnabled p none).operates
  · refine .advance (ordinary_modifyConstraint ?_) fun _ _ ↦ ticks_tick
    exact fun _ h ↦ h

theorem coheres_disable (id : ConstraintId) : Within Coheres e (disable id) := by
  cases hc : e.constraints.get? id with
  | none =>
    refine .get_bind ?_
    rw [hc]
    exact .pure _
  | some c =>
    cases henabled : c.enabled with
    | true => exact Ticks.coheres (ticks_disable hc henabled)
    | false =>
      refine .get_bind ?_
      rw [hc]
      dsimp only
      rw [henabled]
      exact .pure _

/-- **Releasing variables** ends with a tick, if there is anything to release. -/
theorem freshens_releaseWithin (n : Nat) (x : VarId) : Within Freshens e (releaseWithin n x) := by
  cases n with
  | zero => exact .pure _
  | succ n =>
    unfold releaseWithin
    refine .get_bind ?_
    split
    · exact .pure _
    · split
      · refine Ticks.freshens (Within.advance (reads_read x) fun value e₁ ↦ ?_)
        refine .advance (Ordinary.release x) fun _ e₂ ↦ ?_
        split
        · exact .advance (ordinary_restoreField ..) fun _ _ ↦ ticks_tick
        · refine .advance (ordinary_modifyVariable fun _ ↦ ?_) fun _ _ ↦ ?_
          · exact .of_bindings rfl rfl rfl rfl rfl
          exact .advance (ordinary_releaseWithin n _) fun _ _ ↦ ticks_tick
      · exact .pure _

/-- A variable changes, but not in what it remembers. -/
theorem freshens_modifyVariable {f : Variable → Variable} (retouches : ∀ v, Retouches e v (f v)) :
    Within Freshens e (modifyVariable x f) := by
  have hadvances : Advances e (modifyVariable x f e).2 := ordinary_modifyVariable retouches
  refine hadvances.freshens fun hw hmemo ↦ ?_
  obtain ⟨v, hv, ⟨rfl, rfl⟩ | ⟨-, rfl⟩⟩ := exists_of_modify hw
  · exact ⟨v, hv, (retouches v).memo ▸ hmemo⟩
  · exact ⟨_, hv, hmemo⟩

theorem freshens_modifySolver {f : Solver → Solver} : Within Freshens e (modifySolver s f) :=
  freshens_of_vars advances_solver rfl

theorem freshens_detachUnused (x : VarId) : Within Freshens e (detachUnused x) := by
  unfold detachUnused
  refine .get_bind ?_
  split
  · exact .pure _
  · refine Within.bind (.forIn fun b _ _ e₁ _ ↦ ?_) fun _ e₁ _ _ ↦
      .get_bind (freshens_releaseWithin _ x)
    refine Within.bind (freshens_modifyVariable ?_) fun _ e₂ _ _ ↦ ?_
    · exact fun _ ↦ ⟨rfl, rfl, rfl, rfl, fun _ hmem ↦ .inl (List.mem_filter.1 hmem).1⟩
    split
    · exact freshens_modifySolver.bind fun _ _ _ _ ↦ .pure _
    · exact .pure _

theorem coheres_abandon (id : ConstraintId) : Within Coheres e (abandon id) := by
  refine (coheres_disable id).bind fun _ e₁ _ _ ↦ .get_bind ?_
  split
  · exact .pure _
  · refine Ticks.coheres (Within.advance (Managing.retire id) fun _ e₂ ↦ ?_)
    refine .advance (operating_modifyAll fun p solver ↦ ?_) fun _ e₃ ↦ ?_
    · exact (Solver.sameFlags_removePrimitive p).operates
    refine .advance (.forIn fun x _ _ _ _ ↦ ?_) fun _ _ ↦ ticks_tick
    exact (ordinary_leave x id).bind fun _ _ _ _ ↦
      (ordinary_detachUnused x).bind fun _ _ _ _ ↦ .pure _

end Step

namespace Call

theorem coheres_build (predicate : Expr) (s : SolverId) (options : ConstraintOptions)
    (mode : BuildMode) : Within Coheres e (build predicate s options mode) := by
  refine .solverAt_bind fun _ _ ↦ .get_bind ?_
  refine .modify_bind (undisturbed_introduce rfl).coheres ?_
  refine Within.bind (Within.attempt ?_) fun result e₁ _ _ ↦ ?_
  · -- the constraint is new, and off
    refine (rebuilds_realize _).mono fun _ h ↦ h.coheres fun c hc ↦ ?_
    dsimp only at hc
    rw [Arena.get?_insert, if_pos rfl] at hc
    cases hc
    rfl
  · cases result with
    | ok _ => exact .pure _
    | error err => exact .lift_bind (Step.coheres_abandon _) fun _ _ _ _ ↦ .fail _

theorem coheres_deactivate (id : ConstraintId) (c : Constraint) :
    Step.Within Coheres e (deactivate id c) := by
  refine Ticks.coheres (Step.Within.advance (Step.operating_modifyAll fun p solver ↦ ?_) fun _ e₁ ↦ ?_)
  · exact (Solver.sameFlags_setEnabled p none).operates
  · refine .advance (Step.ordinary_modifyConstraint ?_) fun _ _ ↦ Step.ticks_tick
    exact fun _ h ↦ h

end Call

end LiveConstraints

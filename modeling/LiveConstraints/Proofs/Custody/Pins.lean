import LiveConstraints.Proofs.Ordinary
/-!
# Pins and stored values

A solver may not assign a variable that is read-only. Some handles are read-only because a predicate
says so, others because a write in progress pinned them and will release them. A handle is *secure*
if it is read-only and no write holds it, or if it is gone for good (`Engine.Secure`). Nothing but a
request to set flags makes a secure handle insecure: a write pins only what is not read-only yet, and
releases only what it pinned (`Engine.Secures`).

A variable stores a value outside every solver. The variables that are propagating to their
neighbours keep the values they store, whatever happens meanwhile (`Engine.Protects`): only
propagation stores a value, and the guard keeps a variable from propagating twice.

Hooks and handlers may do anything, in particular set flags. What they ask for is recorded in the
journal, so what is said of a computation is said unless one of them set flags (`Engine.Shields`).
-/

namespace LiveConstraints

open Engine

variable {e e' e'' : Engine} {x y : VarId} {s t : SolverId} {h k : ExtVar}

/-- The request sets the flags of a field in its solvers. -/
def Request.setsFlags : Request → Bool
  | .setReadonly .. => true
  | _ => false

/-- A hook or handler set flags. -/
def JournalEntry.setsFlags : JournalEntry → Bool
  | .made request _ => request.setsFlags
  | _ => false

namespace Engine

/-- How often hooks and handlers set flags. -/
def flagsSet (e : Engine) : Nat := e.journal.countP JournalEntry.setsFlags

theorem flagsSet_push (entry : JournalEntry) :
    flagsSet { e with journal := e.journal.push entry }
      = e.flagsSet + if entry.setsFlags then 1 else 0 := Array.countP_push

/-! ### Held handles -/

/-- A write in progress has pinned the handles of a variable. -/
def Pinned (e : Engine) (x : VarId) : Prop := ∃ v, e.vars.get? x = some v ∧ v.pinned.isSome = true

/-- A write in progress will release a handle. -/
def Holds (e : Engine) (s : SolverId) (h : ExtVar) : Prop :=
  ∃ x v, e.vars.get? x = some v ∧ (s, h) ∈ v.pinned.getD []

/-- A handle was handed out and is gone. -/
def Gone (e : Engine) (s : SolverId) (h : ExtVar) : Prop :=
  ∃ solver, e.solvers.get? s = some solver ∧ solver.HandedOut h ∧ solver.flag? h = none

/-- A handle is read-only and no write holds it, or it is gone. -/
def Secure (e : Engine) (s : SolverId) (h : ExtVar) : Prop :=
  ∃ solver, e.solvers.get? s = some solver ∧ solver.HandedOut h ∧
    ∀ b, solver.flag? h = some b → b = true ∧ ¬ e.Holds s h

theorem Gone.secure (hgone : e.Gone s h) : e.Secure s h := by
  obtain ⟨solver, hsolver, hlt, hflag⟩ := hgone
  refine ⟨solver, hsolver, hlt, fun b hb ↦ ?_⟩
  rw [hflag] at hb
  cases hb

/-- A secure handle that a write holds is gone. -/
theorem Secure.gone (hsecure : e.Secure s h) (holds : e.Holds s h) : e.Gone s h := by
  obtain ⟨solver, hsolver, hlt, hflag⟩ := hsecure
  refine ⟨solver, hsolver, hlt, Option.eq_none_iff_forall_ne_some.2 fun b hb ↦ ?_⟩
  exact (hflag b hb).2 holds

/-- A secure handle that is not read-only is gone. -/
theorem Secure.gone_of_writable {solver : Solver} (hsecure : e.Secure s h)
    (hsolver : e.solvers.get? s = some solver) (hwritable : solver.isReadonly h = false) :
    e.Gone s h := by
  obtain ⟨other, hother, hlt, hflag⟩ := hsecure
  obtain rfl : other = solver := Option.some.inj (hother.symm.trans hsolver)
  refine ⟨other, hother, hlt, Option.eq_none_iff_forall_ne_some.2 fun b hb ↦ ?_⟩
  rw [Solver.isReadonly_of_flag? hb, (hflag b hb).1] at hwritable
  cases hwritable

/-- Every solver is still there, and may assign no more than before. -/
def Locks (e e' : Engine) : Prop := ∀ s solver, e.solvers.get? s = some solver →
  ∃ solver', e'.solvers.get? s = some solver' ∧ solver.Locks solver'

theorem locks_of_solvers (solvers : e'.solvers = e.solvers) : Locks e e' :=
  fun _ solver hsolver ↦ ⟨solver, solvers ▸ hsolver, .refl solver⟩

theorem locks_modify {f : Solver → Solver}
    (locks : ∀ solver, e.solvers.get? s = some solver → solver.Locks (f solver)) :
    Locks e { e with solvers := e.solvers.modify s f } := by
  intro t solver hsolver
  dsimp only
  rw [Arena.get?_modify, hsolver]
  split
  · next heq => exact ⟨f solver, rfl, locks solver (heq ▸ hsolver)⟩
  · exact ⟨solver, rfl, .refl solver⟩

theorem locks_insert (solver : Solver) :
    Locks e { e with solvers := e.solvers.insert solver } :=
  fun _ other hother ↦ ⟨other, Arena.get?_insert_of_get? hother, .refl other⟩

theorem Locks.gone (hlocks : Locks e e') (hgone : e.Gone s h) : e'.Gone s h := by
  obtain ⟨solver, hsolver, hlt, hflag⟩ := hgone
  obtain ⟨solver', hsolver', hlocked⟩ := hlocks s solver hsolver
  refine ⟨solver', hsolver', hlocked.handedOut hlt,
    Option.eq_none_iff_forall_ne_some.2 fun b hb ↦ ?_⟩
  obtain ⟨b', hb', -⟩ := hlocked.flag? hlt hb
  rw [hflag] at hb'
  cases hb'

theorem Locks.secure (hlocks : Locks e e') (hholds : e'.Holds s h → e.Holds s h)
    (hsecure : e.Secure s h) : e'.Secure s h := by
  obtain ⟨solver, hsolver, hlt, hflag⟩ := hsecure
  obtain ⟨solver', hsolver', hlocked⟩ := hlocks s solver hsolver
  refine ⟨solver', hsolver', hlocked.handedOut hlt, fun b hb ↦ ?_⟩
  obtain ⟨b', hb', hle⟩ := hlocked.flag? hlt hb
  exact ⟨hle (hflag b' hb').1, fun holds ↦ (hflag b' hb').2 (hholds holds)⟩

/-- Secure handles stay secure, and handles that are gone stay gone. -/
structure Secures (e e' : Engine) : Prop where
  gone : ∀ {s h}, e.Gone s h → e'.Gone s h
  secure : ∀ {s h}, e.Secure s h → e'.Secure s h

instance : IsPreorder Engine Secures where
  refl _ := ⟨id, id⟩
  trans _ _ _ h h' := ⟨fun hgone ↦ h'.gone (h.gone hgone), fun hsecure ↦ h'.secure (h.secure hsecure)⟩

/-- Solvers may assign no more than before, and no write holds more handles. -/
theorem Locks.secures (hlocks : Locks e e') (hholds : ∀ s h, e'.Holds s h → e.Holds s h) :
    Secures e e' := ⟨hlocks.gone, hlocks.secure (hholds _ _)⟩

theorem Holds.of_vars (vars : e'.vars = e.vars) (holds : e'.Holds s h) : e.Holds s h := by
  rwa [Holds, vars] at holds

/-- A variable changes, and has no other handles pinned. -/
theorem holds_of_modify {f : Variable → Variable} (pinned : ∀ v, (f v).pinned = v.pinned)
    (holds : Holds { e with vars := e.vars.modify x f } s h) : e.Holds s h := by
  obtain ⟨y, w, hw, hmem⟩ := holds
  dsimp only at hw
  rw [Arena.get?_modify] at hw
  split at hw
  · obtain ⟨v, hv, rfl⟩ := Option.map_eq_some_iff.1 hw
    exact ⟨y, v, hv, pinned v ▸ hmem⟩
  · exact ⟨y, w, hw, hmem⟩

theorem secures_of_solvers (solvers : e'.solvers = e.solvers)
    (hholds : ∀ s h, e'.Holds s h → e.Holds s h) : Secures e e' :=
  (locks_of_solvers solvers).secures hholds

theorem Recalls.secures (hrecalls : Recalls e e') : Secures e e' := by
  refine secures_of_solvers hrecalls.solvers fun s h ⟨x, w, hw, hmem⟩ ↦ ?_
  obtain ⟨v, hv, heq⟩ := hrecalls.exists_before hw
  have hpinned : w.pinned = v.pinned := congrArg (·.pinned) heq
  exact ⟨x, v, hv, hpinned ▸ hmem⟩

instance : Managing Secures where
  aside _ vars _ solvers _ _ _ _ _ := secures_of_solvers solvers fun _ _ ↦ .of_vars vars
  finds hfinds := hfinds.secures
  current hsecures := ⟨hsecures.gone, hsecures.secure⟩
  retouch _ _ store := secures_of_solvers rfl fun _ _ ↦ holds_of_modify fun v ↦ (store v).pinned
  allocate {_ v} blank := by
    refine secures_of_solvers rfl fun s h ⟨x, w, hw, hmem⟩ ↦ ?_
    obtain ⟨-, rfl⟩ | ⟨-, hw⟩ := Arena.of_get?_insert hw
    · rw [blank.pinned] at hmem
      cases hmem
    · exact ⟨x, w, hw, hmem⟩
  release x := by
    refine secures_of_solvers rfl fun s h ⟨y, w, hw, hmem⟩ ↦ ?_
    exact ⟨y, w, (Arena.of_get?_remove hw).2, hmem⟩
  adjust _ _ _ := secures_of_solvers rfl fun _ _ ↦ .of_vars rfl
  introduce _ := secures_of_solvers rfl fun _ _ ↦ .of_vars rfl
  retire _ := secures_of_solvers rfl fun _ _ ↦ .of_vars rfl
  confine _ _ operates := (locks_modify fun solver h ↦ (operates solver h).toLocks).secures
    fun _ _ ↦ .of_vars rfl
  register solver := (locks_insert solver).secures fun _ _ ↦ .of_vars rfl

/-- The flag of another handle is set. -/
theorem Secure.setReadonly_of_ne {on : Bool} (hne : (t, k) ≠ (s, h)) (hsecure : e.Secure s h) :
    Secure { e with solvers := e.solvers.modify t fun solver => solver.setReadonly k on } s h := by
  obtain ⟨solver, hsolver, hlt, hflag⟩ := hsecure
  by_cases heq : s = t
  · have hk : h ≠ k := fun hk ↦ hne (by rw [heq, hk])
    refine ⟨solver.setReadonly k on, ?_, ?_, ?_⟩
    · dsimp only
      rw [Arena.get?_modify, if_pos heq, hsolver, Option.map_some]
    · rwa [Solver.handedOut_setReadonly]
    · rw [Solver.flag?_setReadonly, if_neg hk]
      exact hflag
  · refine ⟨solver, ?_, hlt, hflag⟩
    dsimp only
    rw [Arena.get?_modify, if_neg heq, hsolver]

theorem Gone.setReadonly {on : Bool} (hgone : e.Gone s h) :
    Gone { e with solvers := e.solvers.modify t fun solver => solver.setReadonly k on } s h := by
  obtain ⟨solver, hsolver, hlt, hflag⟩ := hgone
  by_cases heq : s = t
  · refine ⟨solver.setReadonly k on, ?_, ?_, ?_⟩
    · dsimp only
      rw [Arena.get?_modify, if_pos heq, hsolver, Option.map_some]
    · rwa [Solver.handedOut_setReadonly]
    · rw [Solver.flag?_setReadonly, hflag]
      split <;> rfl
  · refine ⟨solver, ?_, hlt, hflag⟩
    dsimp only
    rw [Arena.get?_modify, if_neg heq, hsolver]

end Engine

/-! ### Pinning and releasing -/

namespace Step

/-- The handles of a list are released; the others stay as they are. -/
theorem secure_release {pins : List (SolverId × ExtVar)} (hnot : (s, h) ∉ pins)
    (hsecure : e.Secure s h) : (forIn (m := Step) pins PUnit.unit (fun b _ ↦ do
      modifySolver b.1 fun solver => solver.setReadonly b.2 false
      pure (.yield PUnit.unit)) e).2.Secure s h := by
  induction pins generalizing e with
  | nil => exact hsecure
  | cons b pins ih =>
    rw [List.forIn_cons]
    rw [List.mem_cons, not_or] at hnot
    exact ih hnot.2 (hsecure.setReadonly_of_ne fun heq ↦ hnot.1 heq.symm)

theorem gone_release {pins : List (SolverId × ExtVar)} (hgone : e.Gone s h) :
    (forIn (m := Step) pins PUnit.unit (fun b _ ↦ do
      modifySolver b.1 fun solver => solver.setReadonly b.2 false
      pure (.yield PUnit.unit)) e).2.Gone s h := by
  induction pins generalizing e with
  | nil => exact hgone
  | cons b pins ih =>
    rw [List.forIn_cons]
    exact ih hgone.setReadonly

/-- **Releasing.** What a write pinned was not secure, unless it is gone. -/
theorem secures_unpinDownstream (x : VarId) : Within Secures e (unpinDownstream x) := by
  let pins := ((e.vars.get? x).bind Variable.pinned).getD []
  let e₁ := { e with vars := e.vars.modify x fun v => { v with pinned := none } }
  have hheld : ∀ {s h}, (s, h) ∈ pins → e.Holds s h := by
    intro s h hmem
    cases hv : e.vars.get? x with
    | none =>
      rw [show pins = [] by simp only [pins, hv]; rfl] at hmem
      cases hmem
    | some v => exact ⟨x, v, hv, by simpa only [pins, hv, Option.bind_some] using hmem⟩
  have hholds : ∀ s h, e₁.Holds s h → e.Holds s h := by
    rintro s h ⟨y, w, hw, hmem⟩
    dsimp only [e₁] at hw
    rw [Arena.get?_modify] at hw
    split at hw
    · obtain ⟨v, -, rfl⟩ := Option.map_eq_some_iff.1 hw
      cases hmem
    · exact ⟨y, w, hw, hmem⟩
  have hforget : Secures e e₁ := secures_of_solvers rfl hholds
  refine ⟨fun hgone ↦ gone_release (hforget.gone hgone), fun {s h} hsecure ↦ ?_⟩
  by_cases hmem : (s, h) ∈ pins
  · exact (gone_release (hforget.gone (hsecure.gone (hheld hmem)))).secure
  · exact secure_release hmem (hforget.secure hsecure)

/-- **Pinning.** What is read-only already is not pinned. -/
theorem secures_pinDownstream (x : VarId) : Within Secures e (pinDownstream x) := by
  refine .get_bind ?_
  split
  · exact .pure _
  · next v hv =>
    split
    · exact .pure _
    · refine (Reads.defining x).bind fun d e₁ _ _ ↦ .get_bind ?_
      let writable := v.handles.filter fun b =>
        some b.1 != d.map Defining.solver &&
          (e₁.solvers.get? b.1).any fun solver => !solver.isReadonly b.2
      let recorded (e₂ : Engine) : Engine :=
        { e₂ with vars := e₂.vars.modify x fun v => { v with pinned := some writable } }
      have hpin : ∀ e₂, Secures e₁ e₂ → Secures e₁ (recorded e₂) := by
        intro e₂ h₂
        have hlocks : Locks e₂ (recorded e₂) := locks_of_solvers rfl
        refine ⟨fun hgone ↦ h₂.gone hgone, fun {s h} hsecure ↦ ?_⟩
        by_cases hmem : (s, h) ∈ writable
        · -- a handle that is pinned was not read-only
          obtain ⟨-, hand⟩ := List.mem_filter.1 hmem
          rw [Bool.and_eq_true, Option.any_eq_true] at hand
          obtain ⟨-, solver, hsolver, hwritable⟩ := hand
          have hgone := hsecure.gone_of_writable hsolver (by simpa using hwritable)
          exact Gone.secure (h₂.gone hgone)
        · refine hlocks.secure ?_ (h₂.secure hsecure)
          rintro ⟨y, w, hw, hheld⟩
          dsimp only [recorded] at hw
          rw [Arena.get?_modify] at hw
          split at hw
          · obtain ⟨v, -, rfl⟩ := Option.map_eq_some_iff.1 hw
            exact absurd hheld hmem
          · exact ⟨y, w, hw, hheld⟩
      exact hpin _ (operating_modifyAll fun b solver ↦ Solver.operates_setReadonly b.2)

end Step

instance : Pinning Secures where
  closure x := (Step.recalls_closure x).mono fun _ ↦ Recalls.secures
  weigh _ _ weighs := (locks_modify fun solver h ↦ by
    obtain ⟨weight, heq⟩ := weighs solver h
    exact heq ▸ Solver.locks_setWeight weight).secures fun _ _ ↦ .of_vars rfl
  pin := Step.secures_pinDownstream
  unpin := Step.secures_unpinDownstream
  suggesting _ hsecures := ⟨hsecures.gone, hsecures.secure⟩

/-! ### Pinned variables -/

namespace Engine

variable {xs : List VarId}

/-- No variables are pinned but those of a list, and those that were. -/
def PinsOnly (xs : List VarId) (e e' : Engine) : Prop := ∀ x, e'.Pinned x → e.Pinned x ∨ x ∈ xs

instance : IsPreorder Engine (PinsOnly xs) where
  refl _ _ := .inl
  trans _ _ _ h h' x hx := (h' x hx).elim (h x) .inr

theorem pinsOnly_of_vars (vars : e'.vars = e.vars) : PinsOnly xs e e' := by
  intro x hx
  rw [Pinned, vars] at hx
  exact .inl hx

theorem pinsOnly_modify {f : Variable → Variable}
    (pinned : ∀ v, (f v).pinned.isSome = true → v.pinned.isSome = true ∨ x ∈ xs) :
    PinsOnly xs e { e with vars := e.vars.modify x f } := by
  rintro y ⟨w, hw, hpinned⟩
  dsimp only at hw
  rw [Arena.get?_modify] at hw
  split at hw
  · next heq =>
    obtain ⟨v, hv, rfl⟩ := Option.map_eq_some_iff.1 hw
    exact (pinned v hpinned).imp (⟨v, hv, ·⟩) (heq ▸ ·)
  · exact .inl ⟨w, hw, hpinned⟩

theorem Recalls.pinsOnly (h : Recalls e e') : PinsOnly xs e e' := by
  rintro x ⟨w, hw, hpinned⟩
  obtain ⟨v, hv, heq⟩ := h.exists_before hw
  have hsame : w.pinned = v.pinned := congrArg (·.pinned) heq
  exact .inl ⟨v, hv, hsame ▸ hpinned⟩

instance : Managing (PinsOnly xs) where
  aside _ vars _ _ _ _ _ _ _ := pinsOnly_of_vars vars
  finds h := h.pinsOnly
  current h := h
  retouch _ _ store := pinsOnly_modify fun v hpinned ↦ .inl ((store v).pinned ▸ hpinned)
  allocate blank x := by
    rintro ⟨w, hw, hpinned⟩
    obtain ⟨-, rfl⟩ | ⟨-, hw⟩ := Arena.of_get?_insert hw
    · rw [blank.pinned] at hpinned
      cases hpinned
    · exact .inl ⟨w, hw, hpinned⟩
  release x y := by
    rintro ⟨w, hw, hpinned⟩
    exact .inl ⟨w, (Arena.of_get?_remove hw).2, hpinned⟩
  adjust _ _ _ := pinsOnly_of_vars rfl
  introduce _ := pinsOnly_of_vars rfl
  retire _ := pinsOnly_of_vars rfl
  confine _ _ _ := pinsOnly_of_vars rfl
  register _ := pinsOnly_of_vars rfl

/-! ### Stored values -/

/-- The variables that are still there store the same values. -/
structure Stores (e e' : Engine) : Prop where
  next : e.vars.next.index ≤ e'.vars.next.index
  shadow : ∀ {x w}, e'.vars.get? x = some w → x.index < e.vars.next.index →
    ∃ v, e.vars.get? x = some v ∧ w.shadow = v.shadow

instance : IsPreorder Engine Stores where
  refl _ := ⟨Nat.le_refl _, fun hw _ ↦ ⟨_, hw, rfl⟩⟩
  trans _ _ _ h h' := by
    refine ⟨Nat.le_trans h.next h'.next, fun hw hlt ↦ ?_⟩
    obtain ⟨v, hv, heq⟩ := h'.shadow hw (Nat.lt_of_lt_of_le hlt h.next)
    obtain ⟨u, hu, heq'⟩ := h.shadow hv hlt
    exact ⟨u, hu, heq.trans heq'⟩

theorem stores_of_vars (vars : e'.vars = e.vars) : Stores e e' := by
  refine ⟨Nat.le_of_eq (by rw [vars]), fun hw _ ↦ ⟨_, ?_, rfl⟩⟩
  rwa [vars] at hw

theorem stores_modify {f : Variable → Variable} (shadow : ∀ v, (f v).shadow = v.shadow) :
    Stores e { e with vars := e.vars.modify x f } := by
  refine ⟨Nat.le_of_eq (congrArg Id.index (Arena.next_modify ..).symm), fun hw _ ↦ ?_⟩
  dsimp only at hw
  rw [Arena.get?_modify] at hw
  split at hw
  · obtain ⟨v, hv, rfl⟩ := Option.map_eq_some_iff.1 hw
    exact ⟨v, hv, shadow v⟩
  · exact ⟨_, hw, rfl⟩

theorem Recalls.stores (h : Recalls e e') : Stores e e' := by
  refine ⟨Nat.le_of_eq h.size.symm, fun hw _ ↦ ?_⟩
  obtain ⟨v, hv, heq⟩ := h.exists_before hw
  exact ⟨v, hv, congrArg (·.shadow) heq⟩

instance : Managing Stores where
  aside _ vars _ _ _ _ _ _ _ := stores_of_vars vars
  finds h := h.stores
  current h := ⟨h.next, h.shadow⟩
  retouch _ _ store := stores_modify fun v ↦ (store v).shadow
  allocate {e v} _ := by
    refine ⟨?_, fun hw hlt ↦ ?_⟩
    · show e.vars.next.index ≤ (e.vars.insert v).next.index
      rw [Arena.next_insert]
      exact Nat.le_succ _
    · dsimp only at hw
      rw [Arena.get?_insert, if_neg fun heq ↦ Nat.lt_irrefl _ (heq ▸ hlt)] at hw
      exact ⟨_, hw, rfl⟩
  release {e} x := by
    exact ⟨Nat.le_of_eq (congrArg Id.index (Arena.next_remove ..).symm), fun hw _ ↦
      ⟨_, (Arena.of_get?_remove hw).2, rfl⟩⟩
  adjust _ _ _ := stores_of_vars rfl
  introduce _ := stores_of_vars rfl
  retire _ := stores_of_vars rfl
  confine _ _ _ := stores_of_vars rfl
  register _ := stores_of_vars rfl

/-- Nothing is recorded, no variable starts or stops propagating, no variables are pinned but those
of a list, and stored values stay. -/
structure Conserves (xs : List VarId) (e e' : Engine) : Prop where
  journal : e'.journal = e.journal
  storing : e'.guards.storing = e.guards.storing
  pins : PinsOnly xs e e'
  stores : Stores e e'

instance : IsPreorder Engine (Conserves xs) where
  refl e := ⟨rfl, rfl, refl_of (PinsOnly xs) e, refl_of Stores e⟩
  trans _ _ _ h h' := ⟨h'.journal.trans h.journal, h'.storing.trans h.storing,
    trans_of (PinsOnly xs) h.pins h'.pins, trans_of Stores h.stores h'.stores⟩

/-- Solvers, constraints and objects are no matter. -/
theorem conserves_of_vars (vars : e'.vars = e.vars) (storing : e'.guards.storing = e.guards.storing)
    (journal : e'.journal = e.journal) : Conserves xs e e' :=
  ⟨journal, storing, pinsOnly_of_vars vars, stores_of_vars vars⟩

theorem Recalls.conserves (h : Recalls e e') : Conserves xs e e' :=
  ⟨by rw [h.same], by rw [h.guards], h.pinsOnly, h.stores⟩

instance : Managing (Conserves xs) where
  aside _ vars _ _ guards _ _ _ journal := conserves_of_vars vars (by rw [guards]) journal
  finds h := h.conserves
  current h := ⟨h.journal, h.storing, Ordinary.current h.pins, Ordinary.current h.stores⟩
  retouch _ _ store := ⟨rfl, rfl, Ordinary.retouch _ store, Ordinary.retouch _ store⟩
  allocate blank := ⟨rfl, rfl, Ordinary.allocate blank, Ordinary.allocate blank⟩
  release _ := ⟨rfl, rfl, Ordinary.release _, Ordinary.release _⟩
  adjust _ _ _ := conserves_of_vars rfl rfl rfl
  introduce _ := conserves_of_vars rfl rfl rfl
  retire _ := conserves_of_vars rfl rfl rfl
  confine _ _ _ := conserves_of_vars rfl rfl rfl
  register _ := conserves_of_vars rfl rfl rfl

end Engine

namespace Step

variable {xs : List VarId}

/-- Solvers change once for each element of a list. -/
theorem conserves_modifyAll {α : Type} (l : List α) (s : α → SolverId) (f : α → Solver → Solver) :
    Within (Conserves xs) e (forIn l PUnit.unit fun a _ ↦ do
      modifySolver (s a) (f a)
      pure (.yield PUnit.unit)) :=
  .forIn fun a _ _ _ _ ↦
    have hchange : Within (Conserves xs) _ (modifySolver (s a) (f a)) := conserves_of_vars rfl rfl rfl
    hchange.bind fun _ _ _ _ ↦ .pure _

/-- The handles of a variable are recorded as pinned, or as released. -/
theorem conserves_record {pinned : Option (List (SolverId × ExtVar))}
    (hx : pinned.isSome = true → x ∈ xs) :
    Within (Conserves xs) e (modifyVariable x fun v => { v with pinned }) :=
  ⟨rfl, rfl, pinsOnly_modify fun _ hpinned ↦ .inr (hx hpinned), stores_modify fun _ ↦ rfl⟩

theorem conserves_pinDownstream (hx : x ∈ xs) : Within (Conserves xs) e (pinDownstream x) := by
  refine .get_bind ?_
  split
  · exact .pure _
  · split
    · exact .pure _
    · refine (Reads.defining x).bind fun d e₁ _ _ ↦ .get_bind ?_
      exact (conserves_modifyAll _ _ _).bind fun _ _ _ _ ↦ conserves_record fun _ ↦ hx

theorem conserves_unpinDownstream (x : VarId) : Within (Conserves xs) e (unpinDownstream x) :=
  .get_bind (Within.bind (conserves_record nofun) fun _ _ _ _ ↦ conserves_modifyAll _ _ _)

/-- What was pinned for a variable is released. -/
theorem unpinned_unpinDownstream (x : VarId) (e : Engine) : ¬ (unpinDownstream x e).2.Pinned x := by
  let e₁ := { e with vars := e.vars.modify x fun v => { v with pinned := none } }
  have hrecorded : ¬ e₁.Pinned x := by
    rintro ⟨w, hw, hpinned⟩
    dsimp only [e₁] at hw
    rw [Arena.get?_modify_self] at hw
    obtain ⟨v, -, rfl⟩ := Option.map_eq_some_iff.1 hw
    cases hpinned
  have hrest : ∀ pins : List (SolverId × ExtVar), Conserves [] e₁
      (forIn (m := Step) pins PUnit.unit (fun b _ ↦ do
        modifySolver b.1 fun solver => solver.setReadonly b.2 false
        pure (.yield PUnit.unit)) e₁).2 := fun pins ↦ conserves_modifyAll pins _ _
  exact fun h ↦ ((hrest _).pins x h).elim hrecorded (List.not_mem_nil)

end Step

/-! ### What a computation protects -/

namespace Engine

variable {xs ys : List VarId}

/-- Secure handles stay secure, and the variables that are propagating keep what they store, but for
those of a list. -/
structure Protects (ys : List VarId) (e e' : Engine) : Prop where
  secures : Secures e e'
  storing : e'.guards.storing = e.guards.storing
  next : e.vars.next.index ≤ e'.vars.next.index
  shadow : ∀ {x w}, x ∈ e.guards.storing → x ∉ ys → e'.vars.get? x = some w →
    x.index < e.vars.next.index → ∃ v, e.vars.get? x = some v ∧ w.shadow = v.shadow

instance : IsPreorder Engine (Protects ys) where
  refl e := ⟨refl_of Secures e, rfl, Nat.le_refl _, fun _ _ hw _ ↦ ⟨_, hw, rfl⟩⟩
  trans _ _ _ h h' := by
    refine ⟨trans_of Secures h.secures h'.secures, h'.storing.trans h.storing,
      Nat.le_trans h.next h'.next, fun hx hy hw hlt ↦ ?_⟩
    obtain ⟨v, hv, heq⟩ := h'.shadow (h.storing ▸ hx) hy hw (Nat.lt_of_lt_of_le hlt h.next)
    obtain ⟨u, hu, heq'⟩ := h.shadow hx hy hv hlt
    exact ⟨u, hu, heq.trans heq'⟩

/-- What every computation does: no variables are pinned but those of a list, and the journal
grows. -/
structure Logs (xs : List VarId) (e e' : Engine) : Prop where
  pins : PinsOnly xs e e'
  journal : e.journal.toList <+: e'.journal.toList

/-- Unless a hook or handler set flags, what there was is protected, but for what the variables of a
second list store. -/
structure ShieldsBut (xs ys : List VarId) (e e' : Engine) : Prop extends Logs xs e e' where
  protects : e'.flagsSet = e.flagsSet → Protects ys e e'

/-- What a computation does that takes back all its pins and stores nothing where it may not. -/
abbrev Shields : Engine → Engine → Prop := ShieldsBut [] []

instance : IsPreorder Engine (Logs xs) where
  refl e := ⟨refl_of (PinsOnly xs) e, List.prefix_refl _⟩
  trans _ _ _ h h' := ⟨trans_of (PinsOnly xs) h.pins h'.pins, h.journal.trans h'.journal⟩

theorem Logs.flagsSet_le (h : Logs xs e e') : e.flagsSet ≤ e'.flagsSet := by
  rw [flagsSet, flagsSet, ← Array.countP_toList, ← Array.countP_toList]
  exact h.journal.sublist.countP_le

/-- Nothing is pinned and nothing recorded. -/
theorem logs_of_vars (vars : e'.vars = e.vars) (journal : e'.journal = e.journal) : Logs xs e e' :=
  ⟨pinsOnly_of_vars vars, journal ▸ List.prefix_refl _⟩

/-- Something is recorded. -/
theorem logs_push (entry : JournalEntry) :
    Logs xs e { e with journal := e.journal.push entry } :=
  ⟨pinsOnly_of_vars rfl, Array.toList_push ▸ List.prefix_append _ _⟩

instance : IsPreorder Engine (ShieldsBut xs ys) where
  refl e := ⟨refl_of (Logs xs) e, fun _ ↦ refl_of (Protects ys) e⟩
  trans e e' e'' h h' := by
    refine ⟨trans_of (Logs xs) h.toLogs h'.toLogs, fun hflags ↦ ?_⟩
    have hfirst : e'.flagsSet = e.flagsSet :=
      Nat.le_antisymm (hflags ▸ h'.flagsSet_le) h.flagsSet_le
    exact trans_of (Protects ys) (h.protects hfirst) (h'.protects (hflags.trans hfirst.symm))

/-- Less is pinned, and less is stored. -/
theorem Shields.but (h : Shields e e') : ShieldsBut xs ys e e' := by
  refine ⟨⟨fun x hx ↦ .inl ((h.pins x hx).resolve_right List.not_mem_nil), h.journal⟩,
    fun hflags ↦ ?_⟩
  have hprotects := h.protects hflags
  exact ⟨hprotects.secures, hprotects.storing, hprotects.next,
    fun hx _ ↦ hprotects.shadow hx List.not_mem_nil⟩

theorem Conserves.shields (h : Conserves xs e e') (hsecures : Secures e e') :
    ShieldsBut xs ys e e' :=
  ⟨⟨h.pins, h.journal ▸ List.prefix_refl _⟩, fun _ ↦
    ⟨hsecures, h.storing, h.stores.next, fun _ _ ↦ h.stores.shadow⟩⟩

theorem Recalls.shields (h : Recalls e e') : ShieldsBut xs ys e e' :=
  h.conserves.shields h.secures

instance : Managing (ShieldsBut xs ys) where
  aside config vars constraints solvers guards generation deferred pending journal :=
    (conserves_of_vars vars (by rw [guards]) journal).shields
      (Ordinary.aside config vars constraints solvers guards generation deferred pending journal)
  finds h := h.shields
  current h := ⟨⟨h.pins, h.journal⟩, fun hflags ↦
    have hprotects := h.protects hflags
    ⟨Ordinary.current hprotects.secures, hprotects.storing, hprotects.next, hprotects.shadow⟩⟩
  retouch x _ store := Conserves.shields (Ordinary.retouch x store) (Ordinary.retouch x store)
  allocate blank := Conserves.shields (Ordinary.allocate blank) (Ordinary.allocate blank)
  release x := Conserves.shields (Ordinary.release x) (Ordinary.release x)
  adjust id _ unmarked := Conserves.shields (Managing.adjust id unmarked) (Managing.adjust id unmarked)
  introduce unmarked := Conserves.shields (Managing.introduce unmarked) (Managing.introduce unmarked)
  retire id := Conserves.shields (Managing.retire id) (Managing.retire id)
  confine s _ operates := Conserves.shields (Ordinary.confine s operates) (Ordinary.confine s operates)
  register s := Conserves.shields (Ordinary.register s) (Ordinary.register s)

/-- Constraints, objects, deferred work, collected hooks and the other guards are no matter. -/
theorem shields_aside (vars : e'.vars = e.vars) (solvers : e'.solvers = e.solvers)
    (storing : e'.guards.storing = e.guards.storing) (journal : e'.journal = e.journal) :
    ShieldsBut xs ys e e' :=
  (conserves_of_vars vars storing journal).shields (secures_of_solvers solvers fun _ _ ↦ .of_vars vars)

end Engine

end LiveConstraints

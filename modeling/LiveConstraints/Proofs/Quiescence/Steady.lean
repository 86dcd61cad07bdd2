import LiveConstraints.Proofs.Ordinary
/-!
# What leaves calls in progress alone

A call in progress raises guards, defers work, collects hooks and marks the constraint that initiates
a write. Ordinary operations touch none of that (`Engine.Steady`), whatever the solvers answer, and
neither do the pins that a write puts on variables. The few operations that do touch it put it back
before they return, and are treated where they are put together.
-/

namespace LiveConstraints

open Engine

variable {α β : Type} {e e' : Engine} {x : VarId} {id : ConstraintId} {s : SolverId}

namespace Engine

/-- A constraint is marked as initiating a write. -/
def Marked (e : Engine) (id : ConstraintId) : Prop :=
  ∃ c, e.constraints.get? id = some c ∧ c.initiating = true

/-- Guards, deferred work, collected hooks and the journal are as before, but for the generation, and
no constraint is marked that was not. -/
structure Steady (e e' : Engine) : Prop where
  guards : e'.guards = { e.guards with generation := e'.guards.generation }
  deferred : e'.deferred = e.deferred
  pending : e'.pendingHooks = e.pendingHooks
  journal : e'.journal = e.journal
  marked : ∀ id, e'.Marked id → e.Marked id

instance : IsPreorder Engine Steady where
  refl _ := ⟨rfl, rfl, rfl, rfl, fun _ h ↦ h⟩
  trans _ _ _ h h' := by
    refine ⟨?_, h'.deferred.trans h.deferred, h'.pending.trans h.pending,
      h'.journal.trans h.journal, fun id hid ↦ h.marked id (h'.marked id hid)⟩
    rw [h'.guards, h.guards]

theorem Marked.of_constraints (h : e'.constraints = e.constraints) (hid : e'.Marked id) :
    e.Marked id := by
  rwa [Marked, h] at hid

/-- Nothing but objects, variables, solvers and settings changed. -/
theorem steady_aside (guards : e'.guards = e.guards) (deferred : e'.deferred = e.deferred)
    (pending : e'.pendingHooks = e.pendingHooks) (journal : e'.journal = e.journal)
    (constraints : e'.constraints = e.constraints) : Steady e e' :=
  ⟨by rw [guards], deferred, pending, journal, fun _ ↦ .of_constraints constraints⟩

/-- A constraint changes, and is not marked by it. -/
theorem marked_of_modify {f : Constraint → Constraint}
    (unmarked : ∀ c, (f c).initiating = true → c.initiating = true) {id' : ConstraintId}
    (h : Marked { e with constraints := e.constraints.modify id f } id') : e.Marked id' := by
  obtain ⟨c', hc', hinitiating⟩ := h
  dsimp only at hc'
  rw [Arena.get?_modify] at hc'
  split at hc'
  · obtain ⟨c, hc, rfl⟩ := Option.map_eq_some_iff.1 hc'
    exact ⟨c, hc, unmarked c hinitiating⟩
  · exact ⟨c', hc', hinitiating⟩

theorem steady_remove (id : ConstraintId) :
    Steady e { e with constraints := e.constraints.remove id } := by
  refine ⟨rfl, rfl, rfl, rfl, fun id' ⟨c, hc, hinitiating⟩ ↦ ?_⟩
  exact ⟨c, (Arena.of_get?_remove hc).2, hinitiating⟩

theorem steady_insert {c : Constraint} (unmarked : c.initiating = false) :
    Steady e { e with constraints := e.constraints.insert c } := by
  refine ⟨rfl, rfl, rfl, rfl, fun id' ⟨c', hc', hinitiating⟩ ↦ ?_⟩
  obtain ⟨-, rfl⟩ | ⟨-, hc'⟩ := Arena.of_get?_insert hc'
  · rw [unmarked] at hinitiating
    cases hinitiating
  · exact ⟨c', hc', hinitiating⟩

theorem Recalls.steady (h : Recalls e e') : Steady e e' :=
  steady_aside h.guards (by rw [h.same]) (by rw [h.same]) (by rw [h.same]) h.constraints

instance : Managing Steady where
  aside _ _ constraints _ guards _ deferred pending journal :=
    ⟨guards, deferred, pending, journal, fun _ ↦ .of_constraints constraints⟩
  finds h := h.steady
  current h := by
    refine ⟨?_, h.deferred, h.pending, h.journal, h.marked⟩
    dsimp only
    rw [h.guards]
  retouch _ _ _ := steady_aside rfl rfl rfl rfl rfl
  allocate _ := steady_aside rfl rfl rfl rfl rfl
  release _ := steady_aside rfl rfl rfl rfl rfl
  adjust _ _ unmarked := ⟨rfl, rfl, rfl, rfl, fun _ ↦ marked_of_modify unmarked⟩
  introduce := steady_insert
  retire := steady_remove
  confine _ _ _ := steady_aside rfl rfl rfl rfl rfl
  register _ := steady_aside rfl rfl rfl rfl rfl

end Engine

/-! ### Variables and solvers -/

namespace Step

theorem steady_modifySolver (s : SolverId) (f : Solver → Solver) :
    Within Steady e (modifySolver s f) := steady_aside rfl rfl rfl rfl rfl

theorem steady_modifyVariable (x : VarId) (f : Variable → Variable) :
    Within Steady e (modifyVariable x f) := steady_aside rfl rfl rfl rfl rfl

/-- A solver changes once for each element of a list. -/
theorem steady_modifyAll (l : List α) (s : α → SolverId) (f : α → Solver → Solver) :
    Within Steady e (forIn l PUnit.unit fun a _ ↦ do
      modifySolver (s a) (f a)
      pure (.yield PUnit.unit)) :=
  .forIn fun a _ _ _ _ ↦ (steady_modifySolver (s a) (f a)).bind fun _ _ _ _ ↦ .pure _

end Step

instance : Pinning Steady where
  closure x := (Step.recalls_closure x).mono fun _ ↦ Recalls.steady
  weigh _ _ _ := steady_aside rfl rfl rfl rfl rfl
  pin x := by
    refine .get_bind ?_
    split
    · exact .pure _
    · split
      · exact .pure _
      · refine (Reads.defining x).bind fun d e₁ _ _ ↦ .get_bind ?_
        exact (Step.steady_modifyAll _ _ _).bind fun _ _ _ _ ↦ Step.steady_modifyVariable ..
  unpin x :=
    .get_bind ((Step.steady_modifyVariable ..).bind fun _ _ _ _ ↦ Step.steady_modifyAll _ _ _)
  suggesting {e _ x} hsuggesting h := by
    refine ⟨?_, h.deferred, h.pending, h.journal, h.marked⟩
    dsimp only
    rw [h.guards]
    dsimp only
    rw [List.erase_append_right _ hsuggesting, List.erase_cons_head, List.append_nil]

namespace Call

theorem steady_store (x : VarId) (v : Value) : Within Steady e (store x v) :=
  .lift (Step.steady_modifyVariable ..)

theorem steady_setReadonly (obj : ObjectId) (field : String) (on : Bool) :
    Within Steady e (setReadonly obj field on) :=
  within_setReadonly (fun _ _ _ ↦ steady_aside rfl rfl rfl rfl rfl) obj field on

end Call

end LiveConstraints

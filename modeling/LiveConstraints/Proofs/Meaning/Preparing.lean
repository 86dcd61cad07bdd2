import LiveConstraints.Proofs.Behaviours
import LiveConstraints.Proofs.Locks
/-!
# Preparing a solver for a constraint

While a constraint is built, its solver is asked to represent fields, to compile terms and to take note
of what it may not assign. A solver is considerate (`Solver.Considerate`) if none of this changes a value
that it handed out before, whatever it was prepared for already. The algorithms of the library are
(`Solver.considerate_of_isOwn`); one from outside may be or not.
-/

namespace LiveConstraints

variable {t t' t'' : Solver}

namespace Solver

/-- A variable that the solver handed out has the value that it had. -/
structure Preserves (t t' : Solver) : Prop where
  handedOut : ∀ {h}, t.HandedOut h → t'.HandedOut h
  value : ∀ {h}, t.HandedOut h → t'.value h = t.value h

theorem Preserves.refl (t : Solver) : t.Preserves t := ⟨id, fun _ ↦ rfl⟩

theorem Preserves.trans (h : t.Preserves t') (h' : t'.Preserves t'') : t.Preserves t'' where
  handedOut := h'.handedOut ∘ h.handedOut
  value hh := (h'.value (h.handedOut hh)).trans (h.value hh)

end Solver

/-! ### Preparations -/

/-- Whether a call prepares a solver for a constraint. -/
def SolverCall.isPreparation : SolverCall → Bool
  | .declare _ _ | .compile _ | .setReadonly _ _ => true
  | _ => false

namespace Solver

/-- Being asked to represent a value, to compile a term or to take note of a read-only flag does not
change what the solver handed out before, however often it was asked already. -/
def Considerate (t : Solver) : Prop :=
  ∀ history, (∀ call ∈ history, call.isPreparation = true) → ∀ call, call.isPreparation = true →
    (t.replay history).Preserves ((t.replay history).after call)

/-- A solver is prepared for a constraint. -/
def Prepares (t t' : Solver) : Prop :=
  ∃ history, (∀ call ∈ history, call.isPreparation = true) ∧ t' = t.replay history

theorem Prepares.refl (t : Solver) : t.Prepares t := ⟨[], nofun, rfl⟩

theorem Prepares.after (h : t.Prepares t') {call : SolverCall} (hcall : call.isPreparation = true) :
    t.Prepares (t'.after call) := by
  obtain ⟨history, hpreparations, rfl⟩ := h
  refine ⟨call :: history, fun c hc ↦ ?_, rfl⟩
  obtain rfl | hc := List.mem_cons.1 hc
  · exact hcall
  · exact hpreparations c hc

theorem Prepares.trans (h : t.Prepares t') (h' : t'.Prepares t'') : t.Prepares t'' := by
  obtain ⟨history, hpreparations, rfl⟩ := h'
  induction history with
  | nil => exact h
  | cons call history ih =>
    exact (ih fun c hc ↦ hpreparations c (List.mem_cons_of_mem call hc)).after
      (hpreparations call List.mem_cons_self)

/-- A considerate solver stays so while it is prepared. -/
theorem Considerate.prepares (hconsiderate : t.Considerate) (h : t.Prepares t') : t'.Considerate := by
  obtain ⟨earlier, hearlier, rfl⟩ := h
  intro history hpreparations call hcall
  have hreplay : (t.replay earlier).replay history = t.replay (history ++ earlier) := by
    simp only [replay, List.foldr_append]
  rw [hreplay]
  refine hconsiderate (history ++ earlier) (fun c hc ↦ ?_) call hcall
  obtain hc | hc := List.mem_append.1 hc
  · exact hpreparations c hc
  · exact hearlier c hc

/-- **A considerate solver** keeps its values while it is prepared. -/
theorem Considerate.preserves (hconsiderate : t.Considerate) (h : t.Prepares t') : t.Preserves t' := by
  obtain ⟨history, hpreparations, rfl⟩ := h
  induction history with
  | nil => exact .refl t
  | cons call history ih =>
    have hhistory := fun c hc ↦ hpreparations c (List.mem_cons_of_mem call hc)
    exact (ih hhistory).trans
      (hconsiderate history hhistory call (hpreparations call List.mem_cons_self))

/-- Preparing a solver takes nothing back. -/
theorem handedOut_after {call : SolverCall} (hcall : call.isPreparation = true) {h : ExtVar}
    (hh : t.HandedOut h) : (t.after call).HandedOut h := by
  cases call with
  | declare v label => exact (locks_declare v label).handedOut hh
  | compile term => exact (t.sameFlags_compile term).locks.handedOut hh
  | setReadonly x on =>
    show (t.setReadonly x on).HandedOut h
    rwa [handedOut_setReadonly]
  | _ => cases hcall

/-! ### The algorithms of the library -/

/-- Whether a solver runs an algorithm of the library. -/
def isOwn (t : Solver) : Bool :=
  match t.algorithm with
  | .custom _ => false
  | _ => true

theorem isOwn_after (howns : t.isOwn = true) (call : SolverCall) : (t.after call).isOwn = true := by
  obtain ⟨name, innerName, weight, algorithm⟩ := t
  cases algorithm with
  | custom c => cases howns
  | keepsRejected r =>
    cases call with
    | suggest x v =>
      dsimp only [after, suggest]
      split <;> rfl
    | _ => rfl
  | relaxation m | dataflow m | domainSearch m | stub m => cases call <;> rfl

theorem isOwn_replay (howns : t.isOwn = true) (history : SolverHistory) :
    (t.replay history).isOwn = true := by
  induction history with
  | nil => exact howns
  | cons call history ih => exact isOwn_after ih call

/-- A variable is declared behind those that were handed out. -/
theorem preserves_declare (howns : t.isOwn = true) (v : Value) (label : String) :
    t.Preserves (t.declare v label).2 := by
  refine ⟨(locks_declare v label).handedOut, fun {h} hlt ↦ ?_⟩
  have hslots : ∀ slots : Slots, h.index < slots.next.index →
      (slots.declare v).2.value h = slots.value h := by
    intro slots hlt
    have hne : h ≠ slots.next := fun heq ↦ Nat.lt_irrefl _ (heq ▸ hlt)
    rw [Slots.declare, Slots.value, Arena.get?_insert, if_neg hne, Slots.value]
  obtain ⟨name, innerName, weight, algorithm⟩ := t
  cases algorithm with
  | relaxation m | keepsRejected m | dataflow m =>
    cases v with
    | number n => exact hslots _ hlt
    | _ => rfl
  | domainSearch d =>
    dsimp only [declare, answer, DomainSearch.declare]
    split
    · exact hslots _ hlt
    · rfl
  | stub c =>
    dsimp only [declare, answer, Stub.declare]
    split
    · have hlt : h.index < c.cells.size := hlt
      show (((c.cells.push (v, false))[h.index]?).map Prod.fst).getD .none = c.value h
      rw [Array.getElem?_push, if_neg (Nat.ne_of_lt hlt), Stub.value]
    · rfl
  | custom c => cases howns

/-- A read-only flag says nothing about the value. -/
theorem preserves_setReadonly (howns : t.isOwn = true) (x : ExtVar) (on : Bool) :
    t.Preserves (t.setReadonly x on) := by
  refine ⟨fun hh ↦ by rwa [handedOut_setReadonly], fun {h} _ ↦ ?_⟩
  have hslots : ∀ slots : Slots,
      Slots.value (slots.modify x fun c ↦ { c with readonly := on }) h = slots.value h := by
    intro slots
    have hvalue : ∀ y, (Arena.get? (slots.modify x fun c ↦ { c with readonly := on }) y).map Slot.value
        = (slots.get? y).map Slot.value := Arena.map_get?_modify fun _ _ ↦ rfl
    rw [Slots.value, hvalue, Slots.value]
  obtain ⟨name, innerName, weight, algorithm⟩ := t
  cases algorithm with
  | stub b =>
    show (((b.cells.modify x.index fun c ↦ (c.1, on))[h.index]?).map Prod.fst).getD .none = b.value h
    rw [Array.getElem?_modify, Stub.value]
    split
    · rw [Option.map_map]
      rfl
    · rfl
  | relaxation m | keepsRejected m | dataflow m | domainSearch m => exact hslots _
  | custom c => cases howns

/-- Compiling touches clauses only. -/
theorem preserves_compile (howns : t.isOwn = true) (term : Term) : t.Preserves (t.compile term).2 := by
  refine ⟨(t.sameFlags_compile term).locks.handedOut, fun {h} _ ↦ ?_⟩
  obtain ⟨name, innerName, weight, algorithm⟩ := t
  cases algorithm with
  | relaxation r | keepsRejected r =>
    dsimp only [compile, Relaxation.compile]
    split <;> rfl
  | dataflow d =>
    dsimp only [compile, Dataflow.compile]
    split <;> rfl
  | domainSearch d =>
    dsimp only [compile, DomainSearch.compile]
    split <;> rfl
  | stub b =>
    dsimp only [compile, Stub.compile]
    split <;> rfl
  | custom c => cases howns

/-- **The algorithms of the library are considerate.** -/
theorem considerate_of_isOwn (howns : t.isOwn = true) : t.Considerate := by
  intro history _ call hcall
  have howned := isOwn_replay howns history
  cases call with
  | declare v label => exact preserves_declare howned v label
  | compile term => exact preserves_compile howned term
  | setReadonly x on => exact preserves_setReadonly howned x on
  | _ => cases hcall

end Solver

end LiveConstraints

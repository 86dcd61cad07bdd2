import LiveConstraints.Proofs.Demand
/-!
# Relaxation is sound

A run of the relaxation solver succeeds only after a whole sweep that found every active relation
satisfied, and such a sweep moves nothing. The relations of every enabled clause are active, so each
of them is satisfied at the final values (`Relaxation.met_of_run`). Whatever the run moved before,
it touched values only (`Relaxation.reassigned_of_run`).
-/

namespace LiveConstraints.Relaxation

variable {tolerance : Float} {pinned : List ExtVar} {s s' : Slots}

/-! ### Sweeps -/

theorem reassigned_of_move {terms : List (ExtVar × Float)} {step : Float}
    (h : move terms step s = .ok s') : s.Reassigned s' := by
  induction terms generalizing s with
  | nil =>
    cases h
    exact .refl _
  | cons e r ih =>
    obtain ⟨s₁, h₁, h⟩ := Except.of_bind_ok h
    obtain ⟨-, rfl⟩ := Slots.of_assign?_ok h₁
    exact (Slots.Reassigned.assign ..).trans (ih h)

theorem violation?_of_repair?_none {rel : LinearRelation}
    (h : repair? tolerance pinned rel s = .ok none) : rel.violation? s.number tolerance = none := by
  unfold repair? at h
  split at h
  · next hv => exact hv
  · dsimp only at h
    split at h
    · cases h
    · obtain ⟨s₁, -, h⟩ := Except.of_bind_ok h
      cases h

theorem reassigned_of_repair? {rel : LinearRelation}
    (h : repair? tolerance pinned rel s = .ok (some s')) : s.Reassigned s' := by
  unfold repair? at h
  split at h
  · cases h
  · dsimp only at h
    split at h
    · cases h
    · obtain ⟨s₁, h₁, h⟩ := Except.of_bind_ok h
      cases h
      exact reassigned_of_move h₁

/-- The step of a sweep: a relation that holds leaves everything as it is, a repaired one unsettles
the sweep. -/
def visit (tolerance : Float) (pinned : List ExtVar) (state : Slots × Bool) (rel : LinearRelation) :
    Except SolverError (Slots × Bool) := do
  match ← repair? tolerance pinned rel state.1 with
  | none => return state
  | some s => return (s, false)

theorem visit_ok {state state' : Slots × Bool} {rel : LinearRelation}
    (h : visit tolerance pinned state rel = .ok state') :
    (state' = state ∧ rel.violation? state.1.number tolerance = none) ∨
      (state'.2 = false ∧ state.1.Reassigned state'.1) := by
  obtain ⟨repaired, hrepair, h⟩ := Except.of_bind_ok h
  cases repaired with
  | none =>
    cases h
    exact .inl ⟨rfl, violation?_of_repair?_none hrepair⟩
  | some s₁ =>
    cases h
    exact .inr ⟨rfl, reassigned_of_repair? hrepair⟩

/-- A sweep touches values only, and a settled one found every relation satisfied where it
started. -/
theorem sweep_ok {active : List LinearRelation} {state state' : Slots × Bool}
    (h : active.foldlM (visit tolerance pinned) state = .ok state') :
    state.1.Reassigned state'.1 ∧ (state'.2 = true → state' = state ∧
      ∀ rel ∈ active, rel.violation? state.1.number tolerance = none) := by
  induction active generalizing state with
  | nil =>
    cases h
    exact ⟨.refl _, fun _ ↦ ⟨rfl, fun _ hrel ↦ absurd hrel (by simp)⟩⟩
  | cons rel active ih =>
    rw [List.foldlM_cons] at h
    obtain ⟨state₁, h₁, h⟩ := Except.of_bind_ok h
    obtain ⟨hmove, hsettled⟩ := ih h
    rcases visit_ok h₁ with ⟨rfl, hholds⟩ | ⟨hflag, hmove₁⟩
    · refine ⟨hmove, fun htrue ↦ ⟨(hsettled htrue).1, fun rel' hrel' ↦ ?_⟩⟩
      rcases List.mem_cons.1 hrel' with rfl | hrel'
      · exact hholds
      · exact (hsettled htrue).2 rel' hrel'
    · refine ⟨hmove₁.trans hmove, fun htrue ↦ ?_⟩
      -- a sweep that was unsettled stays unsettled
      rw [(hsettled htrue).1, hflag] at htrue
      cases htrue

theorem sweeps_ok {active : List LinearRelation} {n : Nat}
    (h : sweeps tolerance pinned active n s = .ok (some s')) :
    s.Reassigned s' ∧ ∀ rel ∈ active, rel.violation? s'.number tolerance = none := by
  induction n generalizing s with
  | zero => cases h
  | succ n ih =>
    obtain ⟨⟨s₁, settled⟩, h₁, h⟩ := Except.of_bind_ok h
    obtain ⟨hmove, hsettled⟩ := sweep_ok h₁
    dsimp only at h
    split at h
    · next htrue =>
      cases h
      obtain ⟨heq, hall⟩ := hsettled htrue
      cases heq
      exact ⟨hmove, hall⟩
    · obtain ⟨hmove', hall⟩ := ih h
      exact ⟨hmove.trans hmove', hall⟩

/-! ### Runs -/

variable {r : Relaxation} {fixed : Option ExtVar}

theorem reassigned_of_start {starts : List (ExtVar × Float)} (h : start fixed starts s = .ok s') :
    s.Reassigned s' := by
  induction starts generalizing s with
  | nil =>
    cases h
    exact .refl _
  | cons e starts ih =>
    obtain ⟨s₁, h₁, h⟩ := Except.of_bind_ok h
    dsimp only at h₁
    split at h₁
    · cases h₁
      exact ih h
    · obtain ⟨-, rfl⟩ := Slots.of_assign?_ok h₁
      exact (Slots.Reassigned.assign ..).trans (ih h)

theorem active_subset_foldl {clauses : List (Clause (List LinearRelation) Float × Priority)}
    {task : Task} {rel : LinearRelation} (h : rel ∈ task.active) :
    rel ∈ (clauses.foldl Task.addClause task).active := by
  induction clauses generalizing task with
  | nil => exact h
  | cons c clauses ih =>
    refine ih ?_
    obtain ⟨clause, priority⟩ := c
    cases clause with
    | relation rels => exact List.mem_append_left _ h
    | keeps x v =>
      dsimp only [Task.addClause]
      split
      · exact List.mem_append_left _ h
      · exact h

/-- The relations of an enabled clause are active. -/
theorem mem_active {rels : List LinearRelation} {priority : Priority} {rel : LinearRelation}
    (h : (.relation rels, priority) ∈ r.model.enabled) (hrel : rel ∈ rels) :
    rel ∈ (r.task fixed).active := by
  have hfold : ∀ (clauses : List (Clause (List LinearRelation) Float × Priority)) (task : Task),
      (.relation rels, priority) ∈ clauses → rel ∈ (clauses.foldl Task.addClause task).active := by
    intro clauses
    induction clauses with
    | nil => exact fun _ h ↦ absurd h (by simp)
    | cons c clauses ih =>
      intro task h
      rw [List.foldl_cons]
      rcases List.mem_cons.1 h with rfl | h
      · have hadded : rel ∈ (task.addClause (.relation rels, priority)).active :=
          List.mem_append_right _ hrel
        exact active_subset_foldl hadded
      · exact ih _ h
  exact hfold _ _ h

theorem reassigned_of_run (h : r.run fixed s = .ok s') : s.Reassigned s' := by
  obtain ⟨s₁, h₁, h⟩ := Except.of_bind_ok h
  obtain ⟨found, h₂, h⟩ := Except.of_bind_ok h
  cases found with
  | none => cases h
  | some s₂ =>
    cases h
    exact (reassigned_of_start h₁).trans (sweeps_ok h₂).1

/-- **Relaxation is sound.** After a successful run every enabled clause is met. -/
theorem met_of_run (h : r.run fixed s = .ok s') {rels : List LinearRelation} {priority : Priority}
    (hon : (.relation rels, priority) ∈ r.model.enabled) :
    (Demand.relations r.tolerance rels).Met s'.value := by
  obtain ⟨s₁, -, h⟩ := Except.of_bind_ok h
  obtain ⟨found, h₂, h⟩ := Except.of_bind_ok h
  cases found with
  | none => cases h
  | some s₂ =>
    cases h
    intro rel hrel
    rw [← Slots.number_eq]
    exact (sweeps_ok h₂).2 rel (mem_active hon hrel)

end LiveConstraints.Relaxation

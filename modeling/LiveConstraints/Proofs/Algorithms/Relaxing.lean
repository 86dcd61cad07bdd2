import LiveConstraints.Proofs.Relaxation
/-!
# What a relaxation run ends with

A run of the relaxation solver works on a task that the enabled clauses add up to
(`Relaxation.task_eq`): their relations and those of required `keeps` clauses are active, the targets of
required `keeps` clauses and the suggested variable are pinned. No sweep moves a variable that is pinned
or read-only (`Relaxation.value_of_sweeps`). Together with a last sweep that found nothing violated this
is what a successful call promises (`Relaxation.sound_of_ask`).
-/

namespace LiveConstraints

theorem Except.eq_ok_of_isOk {ε : Type} {outcome : Except ε Unit} (h : outcome.isOk = true) :
    outcome = .ok () := by
  cases outcome with
  | ok _ => rfl
  | error e => cases h

/-- The variables with a suggested value put in. -/
def Slots.suggested (s : Slots) : Option (ExtVar × Value) → Slots
  | none => s
  | some (x, v) => s.assign x v

theorem Slots.reassigned_suggested (s : Slots) (request : Option (ExtVar × Value)) :
    s.Reassigned (s.suggested request) := by
  obtain _ | ⟨x, v⟩ := request
  · exact .refl s
  · exact .assign s x v

theorem Slots.value_suggested {s : Slots} {request : Option (ExtVar × Value)} {x : ExtVar}
    (hx : some x ≠ request.map Prod.fst) : (s.suggested request).value x = s.value x := by
  obtain _ | ⟨y, v⟩ := request
  · rfl
  · exact value_assign_of_ne fun heq ↦ hx (congrArg some heq)

namespace Relaxation

variable {r r' : Relaxation} {s s' : Slots} {tolerance : Float} {pinned : List ExtVar} {x : ExtVar}
  {v : Value} {rel : LinearRelation} {active : List LinearRelation} {fixed : Option ExtVar}
  {request : Option (ExtVar × Value)}

/-! ### Tasks -/

/-- The relations that an enabled clause makes active. -/
def demanded : Clause (List LinearRelation) Float × Priority → List LinearRelation
  | (.relation rels, _) => rels
  | (.keeps x v, priority) => if priority.isRequired then [keepsRelation x v] else []

/-- The variable that an enabled clause pins. -/
def kept? : Clause (List LinearRelation) Float × Priority → Option ExtVar
  | (.relation _, _) => none
  | (.keeps x _, priority) => if priority.isRequired then some x else none

/-- The variable that an enabled clause sets, with its value. -/
def start? : Clause (List LinearRelation) Float × Priority → Option (ExtVar × Float)
  | (.relation _, _) => none
  | (.keeps x v, _) => some (x, v)

theorem foldl_addClause (clauses : List (Clause (List LinearRelation) Float × Priority)) (task : Task) :
    clauses.foldl Task.addClause task =
      { active := task.active ++ clauses.flatMap demanded
        pinned := task.pinned ++ clauses.filterMap kept?
        starts := task.starts ++ clauses.filterMap start? } := by
  induction clauses generalizing task with
  | nil => simp
  | cons c clauses ih =>
    rw [List.foldl_cons, ih]
    obtain ⟨rels | ⟨x, v⟩, priority⟩ := c
    · simp [Task.addClause, demanded, List.filterMap_cons, kept?, start?]
    · cases hreq : priority.isRequired <;>
        simp [Task.addClause, demanded, kept?, start?, hreq]

/-- The task of a run, clause by clause. -/
theorem task_eq (r : Relaxation) (fixed : Option ExtVar) : r.task fixed =
    { active := r.model.enabled.flatMap demanded
      pinned := fixed.toList ++ r.model.enabled.filterMap kept?
      starts := r.model.enabled.filterMap start? } := by
  rw [task, foldl_addClause, List.nil_append, List.nil_append]

/-! ### What no sweep moves -/

/-- A variable that no projection moves. -/
def Held (pinned : List ExtVar) (s : Slots) (x : ExtVar) : Prop :=
  x ∈ pinned ∨ s.isReadonly x = true

/-- Whether preferred or not, a movable variable is neither pinned nor read-only. -/
theorem mem_free_of_mem_movable {f : LinearForm} {e : ExtVar × Float} (he : e ∈ movable pinned s f) :
    e ∈ f.coefficients.entries.filter fun e ↦ !pinned.contains e.1 && !s.isReadonly e.1 := by
  unfold movable at he
  dsimp only at he
  split at he
  · exact he
  · exact List.mem_of_mem_filter he

theorem not_mem_movable (h : Held pinned s x) (f : LinearForm) : ∀ e ∈ movable pinned s f, e.1 ≠ x := by
  rintro e he rfl
  have hmoves := (List.mem_filter.1 (mem_free_of_mem_movable he)).2
  rw [Bool.and_eq_true, Bool.not_eq_true', Bool.not_eq_true'] at hmoves
  rcases h with hpinned | hro
  · rw [List.contains_iff_mem.2 hpinned] at hmoves
    exact Bool.noConfusion hmoves.1
  · rw [hro] at hmoves
    exact Bool.noConfusion hmoves.2

theorem value_of_move {terms : List (ExtVar × Float)} {step : Float} (hx : ∀ e ∈ terms, e.1 ≠ x)
    (h : move terms step s = .ok s') : s'.value x = s.value x := by
  induction terms generalizing s with
  | nil =>
    cases h
    rfl
  | cons e terms ih =>
    obtain ⟨s₁, h₁, h⟩ := Except.of_bind_ok h
    obtain ⟨-, rfl⟩ := Slots.of_assign?_ok h₁
    rw [ih (fun e' he' ↦ hx e' (List.mem_cons_of_mem _ he')) h]
    exact Slots.value_assign_of_ne (hx e List.mem_cons_self).symm

/-- No projection onto one of the relations moves the variable. Which variables a projection moves is
decided by pins, read-only flags and stays, so a sweep never changes this. -/
def Spared (pinned : List ExtVar) (active : List LinearRelation) (s : Slots) (x : ExtVar) : Prop :=
  ∀ rel ∈ active, ∀ e ∈ movable pinned s rel.form, e.1 ≠ x

theorem Held.spared (h : Held pinned s x) (active : List LinearRelation) : Spared pinned active s x :=
  fun rel _ ↦ not_mem_movable h rel.form

theorem movable_reassigned (hs : s.Reassigned s') (f : LinearForm) :
    movable pinned s' f = movable pinned s f := by
  simp only [movable, hs.isReadonly, hs.isFree]

theorem Spared.reassigned (h : Spared pinned active s x) (hs : s.Reassigned s') :
    Spared pinned active s' x := by
  intro rel hrel
  rw [movable_reassigned hs]
  exact h rel hrel

theorem value_of_visit {state state' : Slots × Bool}
    (hx : ∀ e ∈ movable pinned state.1 rel.form, e.1 ≠ x) (h : visit tolerance pinned state rel = .ok state') :
    state'.1.value x = state.1.value x := by
  obtain ⟨repaired, hrepair, h⟩ := Except.of_bind_ok h
  cases repaired with
  | none =>
    cases h
    rfl
  | some s₁ =>
    cases h
    unfold repair? at hrepair
    split at hrepair
    · cases hrepair
    · dsimp only at hrepair
      split at hrepair
      · cases hrepair
      · obtain ⟨s₂, hmove, hrepair⟩ := Except.of_bind_ok hrepair
        cases hrepair
        exact value_of_move hx hmove

theorem value_of_sweep {state state' : Slots × Bool} (hx : Spared pinned active state.1 x)
    (h : active.foldlM (visit tolerance pinned) state = .ok state') :
    state'.1.value x = state.1.value x := by
  induction active generalizing state with
  | nil =>
    cases h
    rfl
  | cons rel active ih =>
    rw [List.foldlM_cons] at h
    obtain ⟨state₁, h₁, h⟩ := Except.of_bind_ok h
    have hmove : state.1.Reassigned state₁.1 := by
      rcases visit_ok h₁ with ⟨rfl, -⟩ | ⟨-, hmove⟩
      · exact .refl _
      · exact hmove
    have hrest : Spared pinned active state.1 x := fun rel' hrel' ↦ hx rel' (List.mem_cons_of_mem _ hrel')
    exact (ih (hrest.reassigned hmove) h).trans (value_of_visit (hx rel List.mem_cons_self) h₁)

/-- Whatever no projection moves has the same value after any number of sweeps. -/
theorem value_of_sweeps_of_spared {n : Nat} (hx : Spared pinned active s x)
    (h : sweeps tolerance pinned active n s = .ok (some s')) : s'.value x = s.value x := by
  induction n generalizing s with
  | zero => cases h
  | succ n ih =>
    obtain ⟨⟨s₁, settled⟩, h₁, h⟩ := Except.of_bind_ok h
    have hvalue : s₁.value x = s.value x := value_of_sweep hx h₁
    dsimp only at h
    split at h
    · cases h
      exact hvalue
    · exact (ih (hx.reassigned (sweep_ok h₁).1) h).trans hvalue

/-- Whatever is pinned or read-only has the same value after any number of sweeps. -/
theorem value_of_sweeps {n : Nat} (hx : Held pinned s x)
    (h : sweeps tolerance pinned active n s = .ok (some s')) : s'.value x = s.value x :=
  value_of_sweeps_of_spared (hx.spared active) h

/-- Starting sets the variables that it names, but not the held and read-only ones. -/
theorem value_of_start {starts : List (ExtVar × Float)}
    (hx : ∀ e ∈ starts, e.1 = x → some x = fixed ∨ s.isReadonly x = true)
    (h : start fixed starts s = .ok s') : s'.value x = s.value x := by
  induction starts generalizing s with
  | nil =>
    cases h
    rfl
  | cons e starts ih =>
    obtain ⟨s₁, h₁, h⟩ := Except.of_bind_ok h
    have hrest := fun e' he' ↦ hx e' (List.mem_cons_of_mem e he')
    dsimp only at h₁
    split at h₁
    · cases h₁
      exact ih hrest h
    · next hmoves =>
      obtain ⟨-, rfl⟩ := Slots.of_assign?_ok h₁
      have hne : x ≠ e.1 := by
        rintro rfl
        rcases hx e List.mem_cons_self rfl with rfl | hro <;> simp_all
      have hflags := (Slots.Reassigned.assign s e.1 (.number e.2)).isReadonly x
      exact (ih (by simpa only [hflags] using hrest) h).trans (Slots.value_assign_of_ne hne)

/-! ### Runs -/

theorem of_run_ok (h : r.run fixed s = .ok s') : ∃ s₁, start fixed (r.task fixed).starts s = .ok s₁ ∧
    sweeps r.tolerance (r.task fixed).pinned (r.task fixed).active r.maxSweeps s₁ = .ok (some s') := by
  obtain ⟨s₁, h₁, h⟩ := Except.of_bind_ok h
  obtain ⟨found, h₂, h⟩ := Except.of_bind_ok h
  cases found with
  | none => cases h
  | some s₂ =>
    cases h
    exact ⟨s₁, h₁, h₂⟩

/-- No relation that the enabled clauses demand is violated where a run ends. -/
theorem violation?_of_run (h : r.run fixed s = .ok s') {c : Clause (List LinearRelation) Float × Priority}
    (hc : c ∈ r.model.enabled) (hrel : rel ∈ demanded c) :
    rel.violation? s'.number r.tolerance = none := by
  obtain ⟨s₁, -, hsweeps⟩ := of_run_ok h
  refine (sweeps_ok hsweeps).2 rel ?_
  rw [task_eq]
  exact List.mem_flatMap.2 ⟨c, hc, hrel⟩

/-- A variable that a run holds has the same value afterwards. -/
theorem value_of_run_of_fixed (h : r.run (some x) s = .ok s') : s'.value x = s.value x := by
  obtain ⟨s₁, hstart, hsweeps⟩ := of_run_ok h
  rw [← value_of_start (fun _ _ _ ↦ .inl rfl) hstart]
  refine value_of_sweeps (.inl ?_) hsweeps
  rw [task_eq]
  exact List.mem_append_left _ (List.mem_singleton_self x)

/-! ### Calls -/

/-- Solves, or suggests a value to a variable. -/
def ask (r : Relaxation) : Option (ExtVar × Value) → Except SolverError Unit × Relaxation
  | none => r.solve
  | some (x, v) => r.suggest x v

/-- A call that succeeds has run from the variables with the suggestion put in, and has taken over the
values that the run ended with. -/
theorem of_ask_ok (h : r.ask request = (.ok (), r')) :
    r.run (request.map Prod.fst) (r.model.slots.suggested request) = .ok r'.model.slots ∧
      (∀ x v, request = some (x, v) → r.model.slots.contains x = true) ∧
      r' = { r with model := { r.model.countSolve with slots := r'.model.slots } } := by
  have hsettle : ∀ {fixed : Option ExtVar} {s : Slots},
      runFrom { r with model := r.model.countSolve } fixed s = (.ok (), r') →
      r.run fixed s = .ok r'.model.slots ∧
        r' = { r with model := { r.model.countSolve with slots := r'.model.slots } } := by
    intro fixed s h
    unfold runFrom at h
    have hsame : run { r with model := r.model.countSolve } fixed s = r.run fixed s := rfl
    rw [hsame] at h
    cases hrun : r.run fixed s with
    | error e =>
      rw [hrun] at h
      cases h
    | ok s₁ =>
      rw [hrun] at h
      cases h
      exact ⟨rfl, rfl⟩
  rcases request with _ | ⟨x, v⟩
  · obtain ⟨hrun, hr'⟩ := hsettle h
    exact ⟨hrun, nofun, hr'⟩
  · unfold Relaxation.ask suggest at h
    dsimp only at h
    split at h
    · cases h
    · next n hn =>
      have hv : v = .number n := by
        cases v <;> simp_all [number?, Value.asNumber?]
      subst hv
      split at h
      · cases h
      · next s₁ hassign =>
        obtain ⟨hx, rfl⟩ := Slots.of_assign?_ok hassign
        obtain ⟨hrun, hr'⟩ := hsettle h
        exact ⟨hrun, fun y w heq ↦ by cases heq; exact hx, hr'⟩

/-- **Relaxation is sound.** After a call that succeeds no relation of an enabled clause is violated at
the tolerance, whatever the priority of the clause, nor is the relation `x = n` of any required demand
that `x` keeps `n`, and a suggested variable holds the value that was suggested. -/
theorem sound_of_ask (h : r.ask request = (.ok (), r')) :
    (∀ rels priority, (.relation rels, priority) ∈ r.model.enabled → ∀ rel ∈ rels,
      rel.violation? r'.model.slots.number r.tolerance = none) ∧
    (∀ x n priority, (.keeps x n, priority) ∈ r.model.enabled → priority.isRequired = true →
      (keepsRelation x n).violation? r'.model.slots.number r.tolerance = none) ∧
    ∀ x v, request = some (x, v) → r'.model.slots.value x = v := by
  obtain ⟨hrun, hexists, -⟩ := of_ask_ok h
  refine ⟨fun rels priority hc rel hrel ↦ violation?_of_run hrun hc hrel,
    fun x n priority hc hrequired ↦ violation?_of_run hrun hc ?_, ?_⟩
  · rw [demanded, if_pos hrequired]
    exact List.mem_singleton_self _
  · rintro x v rfl
    exact (value_of_run_of_fixed hrun).trans (Slots.value_assign_self (hexists x v rfl))

/-- Two variables that add up to ten, the second of which is read-only and kept at four by two demands,
and a third variable that equals the first. -/
def balance : Relaxation :=
  let (_, r) := declare { maxSweeps := 1000, tolerance := 1e-9 } (.number 6)
  let (_, r) := r.declare (.number 4)
  let (_, r) := r.declare (.number 6)
  let (_, r) := r.compile (.binary .eq (.binary .add (.var ⟨0⟩) (.var ⟨1⟩)) (.const (.number 10)))
  let (_, r) := r.compile (.binary .eq (.var ⟨2⟩) (.var ⟨0⟩))
  let (_, r) := r.keep ⟨1⟩ (.number 4)
  let (_, r) := r.keep ⟨1⟩ (.number 4)
  let (_, model) := r.model.setEnabled ⟨0⟩ (some .weak)
  let (_, model) := model.setEnabled ⟨1⟩ (some .required)
  let (_, model) := model.setEnabled ⟨2⟩ (some .required)
  let (_, model) := model.setEnabled ⟨3⟩ (some .required)
  { r with model := model.setReadonly ⟨1⟩ true }

set_option maxRecDepth 4000 in
/-- The first variable moves along with the third one, and still adds up to ten with the second. -/
theorem sound_of_ask_balance :
    ∃ r', balance.ask (some (⟨2⟩, .number 6.0000000001)) = (.ok (), r') ∧
      (keepsRelation ⟨1⟩ 4).violation? r'.model.slots.number 1e-9 = none ∧
      r'.model.slots.value ⟨2⟩ = .number 6.0000000001 := by
  have hok : (balance.ask (some (⟨2⟩, .number 6.0000000001))).1 = .ok () :=
    Except.eq_ok_of_isOk (by decide +kernel)
  obtain ⟨-, hkeeps, hvalue⟩ := sound_of_ask (Prod.ext hok rfl)
  refine ⟨_, Prod.ext hok rfl, hkeeps ⟨1⟩ 4 .required ?_ rfl, hvalue _ _ rfl⟩
  exact List.mem_of_getElem? (i := 2) rfl

end Relaxation

end LiveConstraints

import LiveConstraints.Proofs.Algorithms.Moving
import LiveConstraints.Proofs.Numbers.Rounding
/-!
# Why relaxation gives up

A run looks at the active relations one after another, sweep after sweep. `Relaxation.visited` lists what it
looks at: each relation with the variables as they are at that moment. A call can fail at such a visit
only, or because the sweeps run out, or because a variable is missing (`Relaxation.stuck_of_ask`).

At a visit a projection gives up when the squared coefficients of the variables it would move add up to
less than `minDenominator`. Where every square of a coefficient reaches that bound, so does every sum of
them (`Relaxation.le_denominator`), and what is left is that no variable of the relation may move. The
bound on squares is not the one on coefficients, which lets smaller ones pass: such a relation is given
up although its variable may move (`Relaxation.exists_abandoned`).
-/

namespace LiveConstraints.Relaxation

variable {r r' : Relaxation} {s s' s₁ : Slots} {tolerance residual : Float} {pinned : List ExtVar}
  {rel : LinearRelation} {active : List LinearRelation} {fixed : Option ExtVar}
  {request : Option (ExtVar × Value)} {f : LinearForm} {error : SolverError}

/-! ### Visits -/

/-- What a sweep looks at: each relation with the variables as they are then. -/
def sweepVisits (tolerance : Float) (pinned : List ExtVar) :
    List LinearRelation → Slots → List (LinearRelation × Slots)
  | [], _ => []
  | rel :: active, s =>
    (rel, s) ::
      match repair? tolerance pinned rel s with
      | .ok none => sweepVisits tolerance pinned active s
      | .ok (some s') => sweepVisits tolerance pinned active s'
      | .error _ => []

/-- What at most `n` sweeps look at. -/
def visits (tolerance : Float) (pinned : List ExtVar) (active : List LinearRelation) :
    ℕ → Slots → List (LinearRelation × Slots)
  | 0, _ => []
  | n + 1, s =>
    sweepVisits tolerance pinned active s ++
      match sweep tolerance pinned active s with
      | .ok (s', false) => visits tolerance pinned active n s'
      | _ => []

/-- The variables that a call runs from: a suggestion has to be a number, for a variable that exists. -/
def begins (r : Relaxation) : Option (ExtVar × Value) → Except SolverError Slots
  | none => .ok r.model.slots
  | some (x, v) => do
    let number ← number? v
    r.model.slots.assign? x (.number number)

/-- What the run of a call looks at. -/
def visited (r : Relaxation) (request : Option (ExtVar × Value)) : List (LinearRelation × Slots) :=
  let task := r.task (request.map Prod.fst)
  match r.begins request >>= start (request.map Prod.fst) task.starts with
  | .ok s => visits r.tolerance task.pinned task.active r.maxSweeps s
  | .error _ => []

theorem mem_sweepVisits (h : (rel, s') ∈ sweepVisits tolerance pinned active s) :
    rel ∈ active ∧ s.Reassigned s' := by
  induction active generalizing s with
  | nil => cases h
  | cons rel₁ active ih =>
    rcases List.mem_cons.1 h with heq | h
    · cases heq
      exact ⟨List.mem_cons_self, .refl _⟩
    · split at h
      · exact (ih h).imp_left (List.mem_cons_of_mem _)
      · next s₁ hrepair =>
        obtain ⟨hmem, hmoved⟩ := ih h
        exact ⟨List.mem_cons_of_mem _ hmem, (reassigned_of_repair? hrepair).trans hmoved⟩
      · cases h

theorem mem_visits {n : ℕ} (h : (rel, s') ∈ visits tolerance pinned active n s) :
    rel ∈ active ∧ s.Reassigned s' := by
  induction n generalizing s with
  | zero => cases h
  | succ n ih =>
    rcases List.mem_append.1 h with h | h
    · exact mem_sweepVisits h
    · split at h
      · next s₁ hsweep =>
        obtain ⟨hmem, hmoved⟩ := ih h
        exact ⟨hmem, (sweep_ok hsweep).1.trans hmoved⟩
      · cases h

/-! ### Failures of runs -/

theorem error_of_sweepVisits {settled : Bool} (h : (rel, s') ∈ sweepVisits tolerance pinned active s)
    (hrepair : repair? tolerance pinned rel s' = .error error) :
    active.foldlM (visit tolerance pinned) (s, settled) = .error error := by
  induction active generalizing s settled with
  | nil => cases h
  | cons rel₁ active ih =>
    rw [List.foldlM_cons, visit]
    rcases List.mem_cons.1 h with heq | h
    · cases heq
      rw [hrepair]
      rfl
    · split at h
      · next heq =>
        rw [heq]
        exact ih h
      · next s₁ heq =>
        rw [heq]
        exact ih h
      · cases h

/-- A sweep fails at a visit. -/
theorem exists_sweepVisit {settled : Bool}
    (h : active.foldlM (visit tolerance pinned) (s, settled) = .error error) :
    ∃ rel s', (rel, s') ∈ sweepVisits tolerance pinned active s ∧
      repair? tolerance pinned rel s' = .error error := by
  induction active generalizing s settled with
  | nil => cases h
  | cons rel active ih =>
    rw [List.foldlM_cons, visit] at h
    cases hrepair : repair? tolerance pinned rel s with
    | error e =>
      rw [hrepair] at h
      cases h
      exact ⟨rel, s, List.mem_cons_self, hrepair⟩
    | ok repaired =>
      rw [hrepair] at h
      cases repaired with
      | none =>
        obtain ⟨rel', s', hmem, herror⟩ := ih h
        refine ⟨rel', s', List.mem_cons_of_mem _ ?_, herror⟩
        rwa [hrepair]
      | some s₁ =>
        obtain ⟨rel', s', hmem, herror⟩ := ih h
        refine ⟨rel', s', List.mem_cons_of_mem _ ?_, herror⟩
        rwa [hrepair]

theorem error_of_visits {n : ℕ} (h : (rel, s') ∈ visits tolerance pinned active n s)
    (hrepair : repair? tolerance pinned rel s' = .error error) :
    sweeps tolerance pinned active n s = .error error := by
  induction n generalizing s with
  | zero => cases h
  | succ n ih =>
    rw [sweeps]
    rcases List.mem_append.1 h with h | h
    · have hsweep : sweep tolerance pinned active s = .error error := error_of_sweepVisits h hrepair
      rw [hsweep]
      rfl
    · split at h
      · next s₁ hsweep =>
        rw [hsweep]
        exact ih h
      · cases h

/-- Sweeps fail at a visit. -/
theorem exists_visit {n : ℕ} (h : sweeps tolerance pinned active n s = .error error) :
    ∃ rel s', (rel, s') ∈ visits tolerance pinned active n s ∧
      repair? tolerance pinned rel s' = .error error := by
  induction n generalizing s with
  | zero => cases h
  | succ n ih =>
    rw [sweeps] at h
    cases hsweep : sweep tolerance pinned active s with
    | error e =>
      rw [hsweep] at h
      cases h
      obtain ⟨rel, s', hmem, hrepair⟩ := exists_sweepVisit hsweep
      exact ⟨rel, s', List.mem_append_left _ hmem, hrepair⟩
    | ok state =>
      rw [hsweep] at h
      obtain ⟨s₁, _ | _⟩ := state
      · obtain ⟨rel, s', hmem, hrepair⟩ := ih h
        refine ⟨rel, s', List.mem_append_right _ ?_, hrepair⟩
        rwa [hsweep]
      · cases h

theorem error_of_assign? {x : ExtVar} {v : Value} (h : s.assign? x v = .error error) :
    s.contains x = false ∧ error = .unknownVariable x := by
  unfold Slots.assign? at h
  split at h
  · cases h
  · next hmissing =>
    cases h
    exact ⟨Bool.eq_false_iff.2 hmissing, rfl⟩

/-- Starting fails for want of a variable only. -/
theorem error_of_start {starts : List (ExtVar × Float)} (h : start fixed starts s = .error error) :
    ∃ x, s.contains x = false ∧ error = .unknownVariable x := by
  induction starts generalizing s with
  | nil => cases h
  | cons e starts ih =>
    rw [start, List.foldlM_cons] at h
    dsimp only at h
    split at h
    · exact ih h
    · cases hassign : s.assign? e.1 (.number e.2) with
      | error e' =>
        rw [hassign] at h
        cases h
        exact ⟨e.1, error_of_assign? hassign⟩
      | ok s₁ =>
        rw [hassign] at h
        obtain ⟨-, rfl⟩ := Slots.of_assign?_ok hassign
        obtain ⟨x, hx, herror⟩ := ih h
        exact ⟨x, ((Slots.Reassigned.assign ..).contains x).symm.trans hx, herror⟩

/-! ### Projections -/

/-- The sum that a projection divides by. -/
def denominator (terms : List (ExtVar × Float)) : Float :=
  terms.foldl (fun sum e ↦ sum + e.2 * e.2) (-0.0)

theorem repair?_of_violation (h : rel.violation? s.number tolerance = some residual) :
    repair? tolerance pinned rel s =
      if denominator (movable pinned s rel.form) < minDenominator then
        .error (.unsatisfiable (.noWritableVariable residual))
      else
        (move (movable pinned s rel.form) (-residual / denominator (movable pinned s rel.form)) s).map
          some := by
  unfold repair?
  rw [h]
  dsimp only
  show (if denominator (movable pinned s rel.form) < minDenominator then _ else
    move (movable pinned s rel.form) (-residual / denominator (movable pinned s rel.form)) s >>=
      fun s ↦ pure (some s)) = _
  split
  · rfl
  · cases move (movable pinned s rel.form) (-residual / denominator (movable pinned s rel.form)) s <;> rfl

theorem le_foldl_squares {terms : List (ExtVar × Float)} {sum : Float} (hsum : minDenominator ≤ sum)
    (h : ∀ e ∈ terms, minDenominator ≤ e.2 * e.2) :
    minDenominator ≤ terms.foldl (fun sum e ↦ sum + e.2 * e.2) sum := by
  induction terms generalizing sum with
  | nil => exact hsum
  | cons e terms ih =>
    have hpos : 0 < minDenominator := by decide +kernel
    have hnext : minDenominator ≤ sum + e.2 * e.2 :=
      Numbers.le_add hpos hsum (h e List.mem_cons_self)
    exact ih hnext fun e' he' ↦ h e' (List.mem_cons_of_mem _ he')

theorem le_denominator {terms : List (ExtVar × Float)} (hne : terms ≠ [])
    (h : ∀ e ∈ terms, minDenominator ≤ e.2 * e.2) : minDenominator ≤ denominator terms := by
  obtain ⟨e, terms, rfl⟩ := List.exists_cons_of_ne_nil hne
  -- the sum starts with the first square, since a negative zero adds nothing
  rw [denominator, List.foldl_cons, Numbers.neg_zero_add]
  exact le_foldl_squares (h e List.mem_cons_self) fun e' he' ↦ h e' (List.mem_cons_of_mem _ he')

/-- Nothing is moved where everything is held. -/
theorem movable_eq_nil_iff : movable pinned s f = [] ↔ ∀ x ∈ f.vars, Held pinned s x := by
  constructor
  · intro h x hx
    by_contra hheld
    obtain ⟨e, he, -⟩ := exists_mem_free hx hheld
    unfold movable at h
    dsimp only at h
    split at h
    · rw [h] at he
      cases he
    · next hpreferred => exact hpreferred (List.isEmpty_iff.2 h)
  · intro h
    rw [List.eq_nil_iff_forall_not_mem]
    exact fun e he ↦ not_mem_movable (h e.1 (mem_vars_of_mem_movable he)) f e he rfl

theorem move_cases (terms : List (ExtVar × Float)) (step : Float) (s : Slots) :
    (∃ s', move terms step s = .ok s') ∨
      ∃ e ∈ terms, s.contains e.1 = false ∧ move terms step s = .error (.unknownVariable e.1) := by
  induction terms generalizing s with
  | nil => exact .inl ⟨s, rfl⟩
  | cons e terms ih =>
    obtain ⟨x, c⟩ := e
    have hmove : move ((x, c) :: terms) step s
        = s.assign? x (.number (s.number x + c * step)) >>= move terms step := rfl
    cases hassign : s.assign? x (.number (s.number x + c * step)) with
    | error error =>
      obtain ⟨hmissing, rfl⟩ := error_of_assign? hassign
      refine .inr ⟨_, List.mem_cons_self, hmissing, ?_⟩
      rw [hmove, hassign]
      rfl
    | ok s₁ =>
      obtain ⟨-, rfl⟩ := Slots.of_assign?_ok hassign
      rw [hmove, hassign]
      rcases ih (s.assign x (.number (s.number x + c * step))) with hmoved | ⟨e, he, hmissing, herror⟩
      · exact .inl hmoved
      · refine .inr ⟨e, List.mem_cons_of_mem _ he, ?_, herror⟩
        exact ((Slots.Reassigned.assign ..).contains e.1).symm.trans hmissing

/-- A violated relation is given up if all its variables are held. If one is not, then it is repaired, or a
variable of it is missing. -/
theorem repair?_cases (hcoefficients : ∀ e ∈ rel.form.coefficients.entries, minDenominator ≤ e.2 * e.2)
    (h : rel.violation? s.number tolerance = some residual) :
    (∀ x ∈ rel.form.vars, Held pinned s x) ∧
        repair? tolerance pinned rel s = .error (.unsatisfiable (.noWritableVariable residual)) ∨
      (∃ s', repair? tolerance pinned rel s = .ok (some s')) ∨
      ∃ x ∈ rel.form.vars, s.contains x = false ∧
        repair? tolerance pinned rel s = .error (.unknownVariable x) := by
  rw [repair?_of_violation h]
  by_cases hnone : movable pinned s rel.form = []
  · -- the sum of no squares is below every bound
    refine .inl ⟨movable_eq_nil_iff.1 hnone, if_pos ?_⟩
    rw [hnone]
    decide +kernel
  · have hle : minDenominator ≤ denominator (movable pinned s rel.form) :=
      le_denominator hnone fun e he ↦
        hcoefficients e (List.mem_of_mem_filter (mem_free_of_mem_movable he))
    rw [if_neg (Numbers.not_lt_of_le hle)]
    rcases move_cases (movable pinned s rel.form)
        (-residual / denominator (movable pinned s rel.form)) s with ⟨s', hmoved⟩ | ⟨e, he, hmissing, herror⟩
    · exact .inr (.inl ⟨s', by rw [hmoved]; rfl⟩)
    · exact .inr (.inr ⟨e.1, mem_vars_of_mem_movable he, hmissing, by rw [herror]; rfl⟩)

/-! ### Calls -/

theorem begins_ok (h : r.begins request = .ok s) : s = r.model.slots.suggested request := by
  rcases request with _ | ⟨x, v⟩
  · cases h
    rfl
  · obtain ⟨n, hn, h⟩ := Except.of_bind_ok h
    obtain ⟨-, rfl⟩ := Slots.of_assign?_ok h
    cases v <;> cases hn
    rfl

/-- A call runs from where it begins. -/
theorem ask_eq (r : Relaxation) (request : Option (ExtVar × Value)) :
    (r.ask request).1 = (r.begins request >>= r.run (request.map Prod.fst)).map fun _ ↦ () := by
  have hrun (fixed : Option ExtVar) (s : Slots) :
      (runFrom { r with model := r.model.countSolve } fixed s).1 = (r.run fixed s).map fun _ ↦ () := by
    have hsame : run { r with model := r.model.countSolve } fixed s = r.run fixed s := rfl
    rw [runFrom, hsame]
    cases r.run fixed s <;> rfl
  rcases request with _ | ⟨x, v⟩
  · exact hrun none r.model.slots
  · rw [Relaxation.ask, suggest, begins]
    cases number? v with
    | error error => rfl
    | ok number =>
      have hassign : r.model.countSolve.slots.assign? x (.number number)
          = r.model.slots.assign? x (.number number) := rfl
      dsimp only
      rw [hassign]
      show _ = ((r.model.slots.assign? x (.number number)) >>= r.run (some x)).map _
      cases r.model.slots.assign? x (.number number) with
      | error error => rfl
      | ok s => exact hrun (some x) s

theorem error_of_begins (h : r.begins request = .error error) :
    (∃ x, error = .unknownVariable x ∧ r.model.slots.contains x = false) ∨
      ∃ x v, request = some (x, v) ∧ error = .unsupported (.numbersOnly algorithmName v) := by
  rcases request with _ | ⟨x, v⟩
  · cases h
  · rw [begins] at h
    cases hnumber : number? v with
    | error e =>
      rw [hnumber] at h
      cases h
      refine .inr ⟨x, v, rfl, ?_⟩
      cases v <;> cases hnumber <;> rfl
    | ok number =>
      rw [hnumber] at h
      obtain ⟨hmissing, rfl⟩ := error_of_assign? h
      exact .inl ⟨x, rfl, hmissing⟩

theorem error_of_run (h : r.run fixed s = .error error) :
    (∃ x, error = .unknownVariable x ∧ s.contains x = false) ∨
      ∃ s₁, start fixed (r.task fixed).starts s = .ok s₁ ∧
        (error = .unsatisfiable (.notConverged r.maxSweeps) ∨
          sweeps r.tolerance (r.task fixed).pinned (r.task fixed).active r.maxSweeps s₁ = .error error) := by
  unfold run at h
  dsimp only at h
  cases hstart : start fixed (r.task fixed).starts s with
  | error e =>
    rw [hstart] at h
    cases h
    obtain ⟨x, hmissing, herror⟩ := error_of_start hstart
    exact .inl ⟨x, herror, hmissing⟩
  | ok s₁ =>
    refine .inr ⟨s₁, rfl, ?_⟩
    rw [hstart] at h
    replace h : (sweeps r.tolerance (r.task fixed).pinned (r.task fixed).active r.maxSweeps s₁ >>= _)
      = .error error := h
    cases hsweeps : sweeps r.tolerance (r.task fixed).pinned (r.task fixed).active r.maxSweeps s₁ with
    | error e =>
      rw [hsweeps] at h
      cases h
      exact .inr rfl
    | ok found =>
      rw [hsweeps] at h
      cases found <;> cases h
      exact .inl rfl

theorem run_of_sweeps_error (hstart : start fixed (r.task fixed).starts s = .ok s₁)
    (h : sweeps r.tolerance (r.task fixed).pinned (r.task fixed).active r.maxSweeps s₁ = .error error) :
    r.run fixed s = .error error := by
  unfold run
  dsimp only
  rw [hstart]
  show (sweeps r.tolerance (r.task fixed).pinned (r.task fixed).active r.maxSweeps s₁ >>= _) = _
  rw [h]
  rfl

/-- What the run of a call looks at is what its sweeps look at. -/
theorem mem_visited : (rel, s') ∈ r.visited request ↔
    ∃ s, r.begins request = .ok (r.model.slots.suggested request) ∧
      start (request.map Prod.fst) (r.task (request.map Prod.fst)).starts
        (r.model.slots.suggested request) = .ok s ∧
      (rel, s') ∈ visits r.tolerance (r.task (request.map Prod.fst)).pinned
        (r.task (request.map Prod.fst)).active r.maxSweeps s := by
  unfold visited
  dsimp only
  cases hbegins : r.begins request with
  | error e => simp [bind, Except.bind]
  | ok s =>
    obtain rfl := begins_ok hbegins
    show (rel, s') ∈ (match start _ _ _ with | .ok s => _ | .error _ => _) ↔ _
    cases hstart : start (request.map Prod.fst) (r.task (request.map Prod.fst)).starts
        (r.model.slots.suggested request) with
    | error e => simp
    | ok s => simp

/-- The coefficients of an active relation are those of an enabled relation, or a one. -/
theorem le_of_mem_active
    (hcoefficients : ∀ rel ∈ r.relations, ∀ e ∈ rel.form.coefficients.entries,
      minDenominator ≤ e.2 * e.2)
    (h : rel ∈ (r.task fixed).active) :
    ∀ e ∈ rel.form.coefficients.entries, minDenominator ≤ e.2 * e.2 := by
  rcases mem_active_cases h with h | ⟨x, -, v, rfl⟩
  · exact hcoefficients rel h
  · intro e he
    have he : e ∈ [(x, 1.0)] := he
    rw [List.mem_singleton.1 he]
    show minDenominator ≤ 1.0 * 1.0
    decide +kernel

/-- What a projection does at a violated relation that a run looks at. -/
theorem repair?_of_mem_visited
    (hcoefficients : ∀ rel ∈ r.relations, ∀ e ∈ rel.form.coefficients.entries,
      minDenominator ≤ e.2 * e.2)
    (h : (rel, s) ∈ r.visited request) (hviolated : rel.violation? s.number r.tolerance = some residual) :
    (∀ x ∈ rel.form.vars, r.Immovable request x) ∧
        repair? r.tolerance (r.task (request.map Prod.fst)).pinned rel s =
          .error (.unsatisfiable (.noWritableVariable residual)) ∨
      (∃ s', repair? r.tolerance (r.task (request.map Prod.fst)).pinned rel s = .ok (some s')) ∨
      ∃ x ∈ rel.form.vars, r.model.slots.contains x = false ∧
        repair? r.tolerance (r.task (request.map Prod.fst)).pinned rel s = .error (.unknownVariable x) := by
  obtain ⟨s₁, hbegins, hstart, hvisit⟩ := mem_visited.1 h
  obtain ⟨hactive, hmoved⟩ := mem_visits hvisit
  have hflags := (reassigned_of_start hstart).trans hmoved
  rcases repair?_cases (le_of_mem_active hcoefficients hactive) hviolated with
    ⟨hheld, hstuck⟩ | hrepaired | ⟨x, hx, hmissing, hunknown⟩
  · exact .inl ⟨fun x hx ↦ (held_iff hflags).1 (hheld x hx), hstuck⟩
  · exact .inr (.inl hrepaired)
  · have hcontains := ((Slots.reassigned_suggested r.model.slots request).trans hflags).contains x
    exact .inr (.inr ⟨x, hx, hcontains.symm.trans hmissing, hunknown⟩)

/-- A visit that fails is where the call fails. -/
theorem ask_of_mem_visited (h : (rel, s) ∈ r.visited request)
    (hrepair : repair? r.tolerance (r.task (request.map Prod.fst)).pinned rel s = .error error) :
    (r.ask request).1 = .error error := by
  obtain ⟨s₁, hbegins, hstart, hvisit⟩ := mem_visited.1 h
  rw [ask_eq, hbegins]
  show (r.run _ _).map _ = _
  rw [run_of_sweeps_error hstart (error_of_visits hvisit hrepair)]
  rfl

/-- A call fails before it runs, or for want of a variable, or when the sweeps run out, or at a visit. -/
theorem error_of_ask (h : (r.ask request).1 = .error error) :
    (∃ x v, request = some (x, v) ∧ error = .unsupported (.numbersOnly algorithmName v)) ∨
      (∃ x, error = .unknownVariable x ∧ r.model.slots.contains x = false) ∨
      error = .unsatisfiable (.notConverged r.maxSweeps) ∨
      ∃ rel s, (rel, s) ∈ r.visited request ∧
        repair? r.tolerance (r.task (request.map Prod.fst)).pinned rel s = .error error := by
  rw [ask_eq] at h
  cases hbegins : r.begins request with
  | error e =>
    rw [hbegins] at h
    cases h
    exact (error_of_begins hbegins).symm.imp_right .inl
  | ok s =>
    obtain rfl := begins_ok hbegins
    rw [hbegins] at h
    replace h : (r.run (request.map Prod.fst) (r.model.slots.suggested request)).map (fun _ ↦ ())
      = .error error := h
    cases hrun : r.run (request.map Prod.fst) (r.model.slots.suggested request) with
    | ok s' =>
      rw [hrun] at h
      cases h
    | error e =>
      rw [hrun] at h
      cases h
      rcases error_of_run hrun with ⟨x, herror, hmissing⟩ | ⟨s₁, hstart, hconverge | hsweeps⟩
      · have hcontains := (Slots.reassigned_suggested r.model.slots request).contains x
        exact .inr (.inl ⟨x, herror, hcontains.symm.trans hmissing⟩)
      · exact .inr (.inr (.inl hconverge))
      · obtain ⟨rel, s, hvisit, hrepair⟩ := exists_visit hsweeps
        exact .inr (.inr (.inr ⟨rel, s, mem_visited.2 ⟨s₁, hbegins, hstart, hvisit⟩, hrepair⟩))

/-- **Relaxation gives up for want of a writable variable only.** Suppose that the square of each coefficient
of an enabled relation reaches `minDenominator`. A call that fails looked at a violated relation all of whose
variables are immovable, or it ran out of sweeps, or a variable is missing, or what was suggested is no
number. And a violated relation with a variable that is not immovable is repaired when the run looks at it,
unless it mentions a variable that does not exist any more. -/
theorem stuck_of_ask
    (hcoefficients : ∀ rel ∈ r.relations, ∀ e ∈ rel.form.coefficients.entries,
      minDenominator ≤ e.2 * e.2) :
    (∀ error, (r.ask request).1 = .error error →
      (∃ residual rel s, error = .unsatisfiable (.noWritableVariable residual) ∧
        (rel, s) ∈ r.visited request ∧ rel.violation? s.number r.tolerance = some residual ∧
        ∀ x ∈ rel.form.vars, r.Immovable request x) ∨
      error = .unsatisfiable (.notConverged r.maxSweeps) ∨
      (∃ x, error = .unknownVariable x ∧ r.model.slots.contains x = false) ∨
      ∃ x v, request = some (x, v) ∧ error = .unsupported (.numbersOnly algorithmName v)) ∧
    ∀ rel s residual, (rel, s) ∈ r.visited request →
      rel.violation? s.number r.tolerance = some residual →
      (∃ x ∈ rel.form.vars, ¬ r.Immovable request x) →
      (∃ s', repair? r.tolerance (r.task (request.map Prod.fst)).pinned rel s = .ok (some s')) ∨
      ∃ x ∈ rel.form.vars, r.model.slots.contains x = false ∧
        (r.ask request).1 = .error (.unknownVariable x) := by
  constructor
  · intro error h
    rcases error_of_ask h with hnumbers | hunknown | hconverge | ⟨rel, s, hvisited, hrepair⟩
    · exact .inr (.inr (.inr hnumbers))
    · exact .inr (.inr (.inl hunknown))
    · exact .inr (.inl hconverge)
    cases hviolated : rel.violation? s.number r.tolerance with
    | none =>
      rw [repair?, hviolated] at hrepair
      cases hrepair
    | some residual =>
      rcases repair?_of_mem_visited hcoefficients hvisited hviolated with
        ⟨hstuck, heq⟩ | ⟨s', heq⟩ | ⟨x, -, hmissing, heq⟩ <;> cases heq.symm.trans hrepair
      · exact .inl ⟨residual, rel, s, rfl, hvisited, hviolated, hstuck⟩
      · exact .inr (.inr (.inl ⟨x, rfl, hmissing⟩))
  · intro rel s residual hvisited hviolated ⟨x, hx, hmoves⟩
    rcases repair?_of_mem_visited hcoefficients hvisited hviolated with
      ⟨hstuck, -⟩ | hrepaired | ⟨y, hy, hmissing, hrepair⟩
    · exact absurd (hstuck x hx) hmoves
    · exact .inl hrepaired
    · exact .inr ⟨y, hy, hmissing, ask_of_mem_visited hvisited hrepair⟩

/-- The residual with which a call has given up for want of a writable variable. -/
def gaveUp? : Except SolverError Unit → Option Float
  | .error (.unsatisfiable (.noWritableVariable residual)) => some residual
  | _ => none

theorem exists_of_isSome_gaveUp? {result : Except SolverError Unit}
    (h : (gaveUp? result).isSome = true) :
    ∃ residual, result = .error (.unsatisfiable (.noWritableVariable residual)) := by
  unfold gaveUp? at h
  split at h
  · exact ⟨_, rfl⟩
  · cases h

/-- The first variable is suggested and the second one read-only, and they do not add up to ten. -/
theorem stuck_of_ask_balance :
    ∃ residual rel s, (balance.ask (some (⟨0⟩, .number 7))).1 =
        .error (.unsatisfiable (.noWritableVariable residual)) ∧
      (rel, s) ∈ balance.visited (some (⟨0⟩, .number 7)) ∧
      rel.violation? s.number 1e-9 = some residual ∧
      ∀ x ∈ rel.form.vars, balance.Immovable (some (⟨0⟩, .number 7)) x := by
  have hcoefficients : ∀ rel ∈ balance.relations, ∀ e ∈ rel.form.coefficients.entries,
      minDenominator ≤ e.2 * e.2 := by decide +kernel
  obtain ⟨residual, herror⟩ : ∃ residual, (balance.ask (some (⟨0⟩, .number 7))).1 =
      .error (.unsatisfiable (.noWritableVariable residual)) :=
    exists_of_isSome_gaveUp? (by decide +kernel)
  rcases (stuck_of_ask hcoefficients).1 _ herror with
    ⟨_, rel, s, heq, hstuck⟩ | h | ⟨_, h, -⟩ | ⟨_, _, -, h⟩
  · cases heq
    exact ⟨residual, rel, s, herror, hstuck⟩
  all_goals cases h

/-- A variable that a small coefficient takes to one. -/
def faint : Relaxation :=
  let (_, r) := declare { maxSweeps := 1000, tolerance := 1e-9 } (.number 0)
  let (_, r) := r.compile
    (.binary .eq (.binary .mul (.var ⟨0⟩) (.const (.number 4.76837158203125e-07))) (.const (.number 1)))
  let (_, model) := r.model.setEnabled ⟨0⟩ (some .required)
  { r with model }

/-- The coefficient is large enough to be kept, but its square is not large enough to divide by: the only
violated relation is given up with its variable free to move. -/
theorem exists_abandoned :
    (∃ residual, (faint.ask none).1 = .error (.unsatisfiable (.noWritableVariable residual))) ∧
      ∀ v ∈ faint.visited none, ∀ x ∈ v.1.form.vars, ¬ faint.Immovable none x :=
  ⟨exists_of_isSome_gaveUp? (by decide +kernel), by decide +kernel⟩

end LiveConstraints.Relaxation

import LiveConstraints.Proofs.Algorithms.Planning
/-!
# The planning loop, step by step

The planner goes through its pending equations by their places in a list from which it removes
equations as it goes, looks coefficients up, and has no bound on how often it starts over. `Loops`
is that loop with its accesses checked: it stops with a fault where a place or a coefficient does not
exist, or where it would divide by a number that it may not divide by. A loop that does not end has no
result at all.

Every loop ends, within two passes for each equation, and in what `Dataflow.propagate` says, which
works with lists and allows so many passes (`Dataflow.loops_of_passes`). The result is the only one
(`Loops.unique`), so no fault occurs (`Dataflow.ends_within`). This needs every variable to have one
coefficient, and no more: coefficients may be anything and variables may be missing.
-/

namespace LiveConstraints.Dataflow

open Plan

/-- What the planning loop stops with when it fails. -/
inductive Fault where
  /-- The run is refused. -/
  | refused (e : SolverError)
  /-- There is nothing at a place of a list, or at a key of a map. -/
  | missing
  /-- A number that nothing is divided by. -/
  | divisor (c : Float)

/-- A pass at some place of the pending equations. -/
structure Scan where
  /-- The plan so far. -/
  plan : Plan
  /-- The place of the equation that comes next. -/
  index : Nat
  /-- Whether an equation was done with. -/
  progress : Bool

namespace Scan

/-- The equation at the place is done with. -/
def close (scan : Scan) (plan : Plan) : Scan where
  plan := { plan with pending := plan.pending.eraseIdx scan.index }
  index := scan.index
  progress := true

/-- Treats the equation at the place: checks it, computes its output or goes past it. -/
def treat (divides : Float → Bool) (scan : Scan) (form : LinearForm) : Except Fault Scan :=
  let plan := scan.plan
  match plan.undetermined form with
  | [] =>
    let residual := form.evaluate plan.slots.number
    if tolerance < residual.abs then .error (.refused (.unsatisfiable (.equationViolated residual)))
    else .ok (scan.close plan)
  | [output] =>
    match form.coefficients.find? output with
    | none => .error .missing
    | some c =>
      if divides c then
        let rest := form.evaluate fun x ↦ if x == output then 0.0 else plan.slots.number x
        match plan.slots.assign? output (.number (Float.neg rest / c)) with
        | .error e => .error (.refused e)
        | .ok slots => .ok (scan.close ({ plan with slots }.determine output))
      else .error (.divisor c)
  | _ => .ok { scan with index := scan.index + 1 }

/-- One turn of a pass; `divides` says which numbers may be divided by. -/
def turn (divides : Float → Bool) (scan : Scan) : Except Fault Scan :=
  match scan.plan.pending[scan.index]? with
  | none => .error .missing
  | some form => scan.treat divides form

/-- Ends a pass. After one in which no equation was done with, the first pending equation gives up all
undetermined variables but its output. -/
def resume (scan : Scan) : Except Fault Plan :=
  let plan := scan.plan
  if scan.progress then .ok plan
  else
    match plan.pending[0]? with
    | none => .error .missing
    | some form =>
      let undetermined := plan.undetermined form
      let output := chooseOutput plan.slots undetermined
      .ok (undetermined.foldl
        (fun plan x ↦ if some x == output then plan else plan.determine x) plan)

end Scan

/-- What a pass comes to from some place on. -/
inductive Scans (divides : Float → Bool) : Scan → Except Fault Scan → Prop where
  /-- There is no equation left. -/
  | done {scan} (h : ¬ scan.index < scan.plan.pending.length) : Scans divides scan (.ok scan)
  /-- An equation stops the pass. -/
  | stop {scan f} (h : scan.index < scan.plan.pending.length)
      (hturn : scan.turn divides = .error f) : Scans divides scan (.error f)
  /-- The pass goes on. -/
  | next {scan scan' r} (h : scan.index < scan.plan.pending.length)
      (hturn : scan.turn divides = .ok scan') (hscans : Scans divides scan' r) : Scans divides scan r

/-- What the loop comes to, with the number of its passes. -/
inductive Loops (divides : Float → Bool) : Plan → Nat → Except Fault Slots → Prop where
  /-- Nothing is pending. -/
  | done {plan} (h : plan.pending = []) : Loops divides plan 0 (.ok plan.slots)
  /-- A pass is stopped. -/
  | stop {plan f} (h : plan.pending ≠ []) (hscans : Scans divides ⟨plan, 0, false⟩ (.error f)) :
      Loops divides plan 1 (.error f)
  /-- The loop stops between two passes. -/
  | halt {plan scan f} (h : plan.pending ≠ []) (hscans : Scans divides ⟨plan, 0, false⟩ (.ok scan))
      (hresume : scan.resume = .error f) : Loops divides plan 1 (.error f)
  /-- There is another pass. -/
  | next {plan scan plan' n r} (h : plan.pending ≠ [])
      (hscans : Scans divides ⟨plan, 0, false⟩ (.ok scan)) (hresume : scan.resume = .ok plan')
      (hloops : Loops divides plan' n r) : Loops divides plan (n + 1) r

variable {divides : Float → Bool} {plan plan' next : Plan} {form : LinearForm}
  {forms : List LinearForm} {scan : Scan} {progress : Bool}

/-! ### One result -/

theorem Scans.unique {r r' : Except Fault Scan} (h : Scans divides scan r)
    (h' : Scans divides scan r') : r = r' := by
  induction h generalizing r' with
  | done hend =>
    cases h' with
    | done => rfl
    | stop hlt | next hlt => exact absurd hlt hend
  | stop hlt hturn =>
    cases h' with
    | done hend => exact absurd hlt hend
    | stop _ hturn' => exact congrArg _ (Except.error.inj (hturn.symm.trans hturn'))
    | next _ hturn' => cases hturn.symm.trans hturn'
  | next hlt hturn _ ih =>
    cases h' with
    | done hend => exact absurd hlt hend
    | stop _ hturn' => cases hturn.symm.trans hturn'
    | next _ hturn' hscans' =>
      obtain rfl := Except.ok.inj (hturn.symm.trans hturn')
      exact ih hscans'

theorem Loops.unique {n n' : Nat} {r r' : Except Fault Slots} (h : Loops divides plan n r)
    (h' : Loops divides plan n' r') : n = n' ∧ r = r' := by
  induction h generalizing n' r' with
  | done hnil =>
    cases h' with
    | done => exact ⟨rfl, rfl⟩
    | stop hne | halt hne | next hne => exact absurd hnil hne
  | stop hne hscans =>
    cases h' with
    | done hnil => exact absurd hnil hne
    | stop _ hscans' => exact ⟨rfl, congrArg _ (Except.error.inj (hscans.unique hscans'))⟩
    | halt _ hscans' | next _ hscans' => cases hscans.unique hscans'
  | halt hne hscans hresume =>
    cases h' with
    | done hnil => exact absurd hnil hne
    | stop _ hscans' => cases hscans.unique hscans'
    | halt _ hscans' hresume' =>
      obtain rfl := Except.ok.inj (hscans.unique hscans')
      exact ⟨rfl, congrArg _ (Except.error.inj (hresume.symm.trans hresume'))⟩
    | next _ hscans' hresume' =>
      obtain rfl := Except.ok.inj (hscans.unique hscans')
      cases hresume.symm.trans hresume'
  | next hne hscans hresume _ ih =>
    cases h' with
    | done hnil => exact absurd hnil hne
    | stop _ hscans' => cases hscans.unique hscans'
    | halt _ hscans' hresume' =>
      obtain rfl := Except.ok.inj (hscans.unique hscans')
      cases hresume.symm.trans hresume'
    | next _ hscans' hresume' hloops' =>
      obtain rfl := Except.ok.inj (hscans.unique hscans')
      obtain rfl := Except.ok.inj (hresume.symm.trans hresume')
      obtain ⟨rfl, rfl⟩ := ih hloops'
      exact ⟨rfl, rfl⟩

/-! ### One equation -/

/-- All coefficients of an equation may be divided by. -/
def Divisible (divides : Float → Bool) (form : LinearForm) : Prop :=
  ∀ x c, form.coefficients.find? x = some c → divides c = true

/-- The pass that has visited some equations and has others before it. -/
def Plan.scanning (plan : Plan) (forms : List LinearForm) (progress : Bool) : Scan where
  plan := { plan with pending := plan.pending ++ forms }
  index := plan.pending.length
  progress

theorem turn_scanning : (plan.scanning (form :: forms) progress).turn divides
    = (plan.scanning (form :: forms) progress).treat divides form := by
  have hform : (plan.scanning (form :: forms) progress).plan.pending[plan.pending.length]?
      = some form := by
    rw [scanning, List.getElem?_append_right (Nat.le_refl _), Nat.sub_self, List.getElem?_cons_zero]
  rw [Scan.turn, show (plan.scanning (form :: forms) progress).index = plan.pending.length from rfl,
    hform]

theorem close_scanning (h : plan'.pending = plan.pending ++ form :: forms) :
    (plan.scanning (form :: forms) progress).close plan'
      = scanning { plan' with pending := plan.pending } forms true := by
  rw [Scan.close, scanning, scanning, h, List.eraseIdx_append_of_length_le (Nat.le_refl _),
    Nat.sub_self, List.eraseIdx_zero, List.tail_cons]

/-- What is pending has no say in what is determined. -/
theorem determine_withPending (plan : Plan) (pending : List LinearForm) (x : ExtVar) :
    { plan with pending }.determine x = { plan.determine x with pending } := by
  unfold determine
  split <;> rfl

/-- Treating an equation is a visit to it. The place stays where it is if the equation is done
with. -/
theorem treat_scanning (hdiv : Divisible divides form) :
    (plan.scanning (form :: forms) progress).treat divides form =
      ((visit plan form).map fun plan' ↦ plan'.scanning forms
        (progress || plan'.pending.length == plan.pending.length)).mapError .refused := by
  have hsame : (plan.scanning (form :: forms) progress).plan
      = { plan with pending := plan.pending ++ form :: forms } := rfl
  have hopen : { plan with pending := plan.pending ++ form :: forms }.undetermined form
      = plan.undetermined form := rfl
  rw [Scan.treat, hsame, visit]
  dsimp only
  rw [hopen]
  match hlist : plan.undetermined form with
  | [] =>
    dsimp only
    split
    · rfl
    · rw [close_scanning rfl, Except.map, Except.mapError, beq_self_eq_true, Bool.or_true]
  | [output] =>
    have hmem : output ∈ form.vars := (mem_undetermined.1 (hlist ▸ List.mem_singleton_self output)).1
    obtain ⟨c, hc⟩ := Option.isSome_iff_exists.1 (SortedMap.find?_isSome_of_mem_keys hmem)
    have hsolve : solveFor plan.slots form output =
        Float.neg (form.evaluate fun x ↦ if x == output then 0.0 else plan.slots.number x) / c := by
      rw [solveFor, hc, Option.getD_some]
    dsimp only
    rw [hsolve, hc]
    dsimp only
    rw [if_pos (hdiv output c hc)]
    generalize Value.number _ = v
    rcases hassign : plan.slots.assign? output v with e | slots
    · rfl
    · dsimp only [bind, Except.bind, pure, Except.pure, Except.map, Except.mapError]
      rw [close_scanning (pending_determine ..), ← determine_withPending, pending_determine,
        beq_self_eq_true, Bool.or_true]
  | _ :: _ :: _ =>
    have hlen : ((plan.pending ++ [form]).length == plan.pending.length) = false := by simp
    dsimp only [Except.map, Except.mapError]
    rw [hlen, Bool.or_false, scanning, scanning, List.append_assoc, List.length_append]
    rfl

/-! ### One pass -/

/-- The equations that a run of visits keeps are some of those visited. -/
theorem length_le_of_foldlM_visit (h : forms.foldlM visit plan = .ok next) :
    next.pending.length ≤ plan.pending.length + forms.length := by
  obtain ⟨-, -, left, hleft, hpending⟩ := foldlM_visit h
  rw [hpending, List.length_append]
  exact Nat.add_le_add_left hleft.length_le _

/-- A pass has been done with an equation if fewer are pending in the end than it could have kept. -/
theorem progress_of_visit (hvisit : visit plan form = .ok plan')
    (hrest : forms.foldlM visit plan' = .ok next) :
    ((progress || plan'.pending.length == plan.pending.length)
        || decide (next.pending.length < plan'.pending.length + forms.length))
      = (progress || decide (next.pending.length < plan.pending.length + (form :: forms).length)) := by
  have hle := length_le_of_foldlM_visit hrest
  rw [List.length_cons, Bool.or_assoc]
  rcases (visited_of_visit hvisit).pending with ⟨hdone, -⟩ | ⟨hkept, -⟩
  · rw [hdone] at hle ⊢
    rw [beq_self_eq_true, Bool.true_or, decide_eq_true (by omega)]
  · have hlen : plan'.pending.length = plan.pending.length + 1 := by
      rw [hkept, List.length_append, List.length_singleton]
    rw [hlen, beq_false_of_ne (Nat.succ_ne_self _), Bool.false_or, Nat.add_assoc, Nat.add_comm 1]

/-- The rest of a pass is a run of visits to the equations from its place on. -/
theorem scans_scanning (hdiv : ∀ form ∈ forms, Divisible divides form) :
    Scans divides (plan.scanning forms progress)
      (((forms.foldlM visit plan).map fun next ↦ next.scanning []
        (progress || decide (next.pending.length < plan.pending.length + forms.length))).mapError
          .refused) := by
  induction forms generalizing plan progress with
  | nil =>
    have hend : (plan.scanning [] progress).plan.pending.length = plan.pending.length := by
      rw [scanning, List.append_nil]
    rw [List.foldlM_nil, List.length_nil, Nat.add_zero]
    dsimp only [pure, Except.pure, Except.map, Except.mapError]
    rw [decide_eq_false (Nat.lt_irrefl _), Bool.or_false]
    exact .done (by rw [hend]; exact Nat.lt_irrefl _)
  | cons form forms ih =>
    have hlt : (plan.scanning (form :: forms) progress).index
        < (plan.scanning (form :: forms) progress).plan.pending.length := by
      show plan.pending.length < (plan.pending ++ form :: forms).length
      rw [List.length_append, List.length_cons]
      omega
    have hturn : (plan.scanning (form :: forms) progress).turn divides = _ :=
      turn_scanning.trans (treat_scanning (hdiv form List.mem_cons_self))
    rw [List.foldlM_cons]
    cases hvisit : visit plan form with
    | error e =>
      rw [hvisit] at hturn
      exact .stop hlt hturn
    | ok plan' =>
      rw [hvisit] at hturn
      refine .next hlt hturn ?_
      have hrest := @ih plan' (progress || plan'.pending.length == plan.pending.length)
        fun form hform ↦ hdiv form (List.mem_cons_of_mem _ hform)
      dsimp only [bind, Except.bind]
      cases hnext : forms.foldlM visit plan' with
      | error e =>
        rw [hnext] at hrest
        exact hrest
      | ok next =>
        rw [hnext] at hrest
        dsimp only [Except.map, Except.mapError] at hrest ⊢
        rwa [progress_of_visit hvisit hnext] at hrest

/-- A pass from the first place on. It has made progress if fewer equations are pending. -/
theorem scans_pass (hdiv : ∀ form ∈ plan.pending, Divisible divides form) :
    Scans divides ⟨plan, 0, false⟩ (((pass plan).map fun next ↦
      next.scanning [] (decide (next.pending.length < plan.pending.length))).mapError .refused) := by
  have hscans : Scans divides (scanning { plan with pending := [] } plan.pending false) _ :=
    scans_scanning hdiv
  simp only [List.length_nil, Nat.zero_add, Bool.false_or] at hscans
  exact hscans

theorem scanning_nil : plan.scanning [] progress = ⟨plan, plan.pending.length, progress⟩ := by
  rw [scanning, List.append_nil]

/-- After a pass the plan goes on as it is, or gives up variables if nothing was done with. -/
theorem resume_scanning (hpending : plan.pending ≠ [])
    (hle : next.pending.length ≤ plan.pending.length) :
    (next.scanning [] (decide (next.pending.length < plan.pending.length))).resume
      = .ok (plan.resumed next) := by
  rw [scanning_nil, resumed]
  by_cases hlen : next.pending.length = plan.pending.length
  · rw [if_pos hlen, hlen, decide_eq_false (Nat.lt_irrefl _), commit]
    cases hnext : next.pending with
    | nil => exact absurd (List.eq_nil_of_length_eq_zero (by rw [← hlen, hnext]; rfl)) hpending
    | cons form _ => simp [Scan.resume, hnext]
  · rw [if_neg hlen, decide_eq_true (by omega)]
    rfl

/-! ### The loop -/

/-- Where two passes for each equation are allowed the loop ends in what the passes come to. It takes
one pass less if the first equation is next. -/
theorem loops_of_passes {n : Nat} (hforms : ∀ form ∈ plan.pending, form.Ordered)
    (hdiv : ∀ form ∈ plan.pending, Divisible divides form)
    (hn : 2 * plan.pending.length ≤ n ∨ plan.Eager ∧ 2 * plan.pending.length ≤ n + 1) :
    ∃ m ≤ n, Loops divides plan m (((passes n plan).map Plan.slots).mapError .refused) := by
  induction n generalizing plan with
  | zero =>
    have hnil : plan.pending = [] := List.eq_nil_of_length_eq_zero (by omega)
    exact ⟨0, Nat.le_refl _, .done hnil⟩
  | succ n ih =>
    rw [passes]
    split
    · next hempty => exact ⟨0, Nat.zero_le _, .done (List.isEmpty_iff.1 hempty)⟩
    · next hempty =>
      have hne : plan.pending ≠ [] := fun hnil ↦ hempty (List.isEmpty_iff.2 hnil)
      have hscans := scans_pass hdiv
      cases hnext : pass plan with
      | error e =>
        rw [hnext] at hscans
        exact ⟨1, by omega, .stop hne hscans⟩
      | ok next =>
        rw [hnext] at hscans
        obtain ⟨-, -, hsub⟩ := pass_ok hnext
        have hresume := resume_scanning hne hsub.length_le
        have hstill : ∀ form ∈ (plan.resumed next).pending, form ∈ plan.pending := by
          rw [(resumed_ok plan next).2]
          exact fun form hform ↦ hsub.subset hform
        obtain ⟨m, hm, hloops⟩ := ih (fun form hform ↦ hforms form (hstill form hform))
          (fun form hform ↦ hdiv form (hstill form hform)) (allowed_of_pass hforms hne hn hnext)
        exact ⟨m + 1, Nat.succ_le_succ hm, .next hne hscans hresume hloops⟩

/-! ### Runs -/

variable {d : Dataflow} {fixed : List ExtVar} {s : Slots}

/-- What happens before the loop: demands are set, and what may not be an output is determined. -/
def prepare (d : Dataflow) (fixed : List ExtVar) (s : Slots) : Except SolverError Plan := do
  let plan ← d.keepers.foldlM (startOne fixed)
    { slots := s, determined := fixed, pending := d.equations }
  return determineReadonly plan

theorem propagate_eq : d.propagate fixed s =
    (d.prepare fixed s).bind fun plan ↦ (passes (2 * d.equations.length) plan).map Plan.slots := by
  rw [propagate, prepare]
  rcases d.keepers.foldlM (startOne fixed) _ with e | plan
  · rfl
  · rcases hpasses : passes (2 * d.equations.length) (determineReadonly plan) with e | plan' <;>
      simp only [bind, Except.bind, pure, Except.pure, hpasses, Except.map]

theorem pending_of_prepare (h : d.prepare fixed s = .ok plan) : plan.pending = d.equations := by
  obtain ⟨started, hstarted, h⟩ := Except.of_bind_ok h
  cases h
  exact (determineReadonly_ok started).2.trans (foldlM_startOne hstarted).2

/-- What a run comes to, with the number of passes of its loop. -/
inductive Ends (divides : Float → Bool) (d : Dataflow) (fixed : List ExtVar) (s : Slots) :
    Nat → Except Fault Slots → Prop where
  /-- The run is refused before the loop. -/
  | refused {e} (h : d.prepare fixed s = .error e) : Ends divides d fixed s 0 (.error (.refused e))
  /-- The run ends with the loop. -/
  | looped {plan n r} (h : d.prepare fixed s = .ok plan) (hloops : Loops divides plan n r) :
      Ends divides d fixed s n r

/-- A run ends in one way, and that is what propagation says: no look-up fails and nothing is divided
by what may not be divided by. -/
theorem ends_iff (hforms : ∀ form ∈ d.equations, form.Ordered)
    (hdiv : ∀ form ∈ d.equations, Divisible divides form) (fixed : List ExtVar) (s : Slots) :
    ∃ n ≤ 2 * d.equations.length, ∀ m r,
      Ends divides d fixed s m r ↔ m = n ∧ r = (d.propagate fixed s).mapError .refused := by
  rw [propagate_eq]
  cases hprepare : d.prepare fixed s with
  | error e =>
    refine ⟨0, Nat.zero_le _, fun m r ↦ ⟨fun hends ↦ ?_, ?_⟩⟩
    · cases hends with
      | refused h => exact ⟨rfl, by cases hprepare.symm.trans h; rfl⟩
      | looped h => cases hprepare.symm.trans h
    · rintro ⟨rfl, rfl⟩
      exact .refused hprepare
  | ok plan =>
    have hpending := pending_of_prepare hprepare
    obtain ⟨n, hn, hloops⟩ := loops_of_passes (hpending ▸ hforms) (hpending ▸ hdiv)
      (.inl (Nat.le_of_eq (by rw [hpending])))
    refine ⟨n, hn, fun m r ↦ ⟨fun hends ↦ ?_, ?_⟩⟩
    · cases hends with
      | refused h => cases hprepare.symm.trans h
      | looped h hloops' =>
        cases hprepare.symm.trans h
        exact hloops'.unique hloops
    · rintro ⟨rfl, rfl⟩
      exact .looped hprepare hloops

/-- **Planning terminates.** Whatever the equations, the fixed variables, the flags and the stays are,
the planning loop ends after at most two passes for each equation. It ends in one way only, with the
variables or the error that propagation gives, and not because it looks something up that is not
there. -/
theorem ends_within (hforms : ∀ form ∈ d.equations, form.Ordered) (fixed : List ExtVar) (s : Slots) :
    ∃ n ≤ 2 * d.equations.length, ∀ m r,
      Ends (fun _ ↦ true) d fixed s m r ↔ m = n ∧ r = (d.propagate fixed s).mapError .refused :=
  ends_iff hforms (fun _ _ _ _ _ ↦ rfl) fixed s

/-- Where nothing is fixed the first pass over the sums gets nowhere, and the run succeeds. -/
theorem ends_within_sums : (∀ form ∈ sums.equations, form.Ordered) ∧ sums.equations.length = 3 ∧
    (sums.propagate [] sums.model.slots).isOk = true ∧ ∃ n ≤ 2 * sums.equations.length, ∀ m r,
      Ends (fun _ ↦ true) sums [] sums.model.slots m r ↔
        m = n ∧ r = (sums.propagate [] sums.model.slots).mapError .refused := by
  have hforms : ∀ form ∈ sums.equations, form.Ordered := by decide +kernel
  exact ⟨hforms, by decide +kernel, by decide +kernel, ends_within hforms [] sums.model.slots⟩

end LiveConstraints.Dataflow

import LiveConstraints.Proofs.Dataflow
import LiveConstraints.Proofs.Relaxation
/-!
# Moving variables in place

The algorithms hand over their variables only when they succeed. Here they are run the other way,
*in place*: every assignment is made at once on the solver's own variables, and a run that fails
half-way leaves them half moved. Around such a run the values of all variables are saved before it
and put back after a failure.

A run in place does what its algorithm computes, and only ever changes values of variables that
exist (`InPlace.Realizes`). Putting the values back undoes all of it then, wherever it failed: a run
that is rolled back is a single step that either happens or leaves no trace
(`InPlace.restoring_eq_step`).
-/

namespace LiveConstraints

variable {σ τ α : Type}

/-! ### Runs in place -/

/-- A run that changes its state in place. What it did before it failed stays done. -/
abbrev InPlace (σ : Type) := ExceptT SolverError (StateM σ)

namespace InPlace

/-- One change that either happens or fails without a trace. -/
def step (f : σ → Except SolverError σ) : InPlace σ Unit := fun s ↦
  match f s with
  | .ok s' => (.ok (), s')
  | .error e => (.error e, s)

/-- Runs on a state that holds more than what is kept of it, also after a failure. -/
def focus (enter : τ → σ) (leave : σ → τ) (m : InPlace σ Unit) : InPlace τ Unit := fun t ↦
  ((m (enter t)).1, leave (m (enter t)).2)

/-- The run `m` does in place what `f` computes. Whether it succeeds or fails, the state it leaves is
related to the one it started from. -/
def Realizes (R : σ → σ → Prop) (m : InPlace σ Unit) (f : σ → Except SolverError σ) : Prop :=
  ∀ s, (∃ s', f s = .ok s' ∧ m s = (.ok (), s') ∧ R s s') ∨
    ∃ e s', f s = .error e ∧ m s = (.error e, s') ∧ R s s'

theorem bind_of_ok {m : InPlace σ α} {k : α → InPlace σ Unit} {s s' : σ} {a : α}
    (h : m s = (.ok a, s')) : (m >>= k) s = k a s' := by
  simp [Bind.bind, ExceptT.bind, ExceptT.mk, StateT.bind, ExceptT.bindCont, h]

theorem bind_of_error {m : InPlace σ α} {k : α → InPlace σ Unit} {s s' : σ} {e : SolverError}
    (h : m s = (.error e, s')) : (m >>= k) s = (.error e, s') := by
  simp [Bind.bind, ExceptT.bind, ExceptT.mk, StateT.bind, ExceptT.bindCont, h]
  rfl

variable {R : σ → σ → Prop} {m m' : InPlace σ Unit} {f f' : σ → Except SolverError σ}

/-- A step does what it is made of. -/
theorem Realizes.step (hR : ∀ s, R s s) (h : ∀ s s', f s = .ok s' → R s s') :
    Realizes R (step f) f := by
  intro s
  rcases hf : f s with e | s'
  · exact .inr ⟨e, s, rfl, by simp [InPlace.step, hf], hR s⟩
  · exact .inl ⟨s', rfl, by simp [InPlace.step, hf], h s s' hf⟩

theorem Realizes.modify {g : σ → σ} (h : ∀ s, R s (g s)) :
    Realizes R (modify g) fun s ↦ .ok (g s) :=
  fun s ↦ .inl ⟨g s, rfl, rfl, h s⟩

theorem realizes_assign? (x : ExtVar) (v : Value) :
    Realizes Slots.Reassigned (.step (·.assign? x v)) (·.assign? x v) :=
  .step .refl fun s s' h ↦ by
    obtain ⟨-, rfl⟩ := Slots.of_assign?_ok h
    exact .assign ..

/-- One run after another. A failure of the second one leaves what the first one did. -/
theorem Realizes.seq (hR : ∀ s s' s'', R s s' → R s' s'' → R s s'') (hm : Realizes R m f)
    (hm' : Realizes R m' f') : Realizes R (do m; m') fun s ↦ f s >>= f' := by
  intro s
  dsimp only
  rcases hm s with ⟨s', hf, hrun, hs⟩ | ⟨e, s', hf, hrun, hs⟩
  · rw [hf, bind_of_ok hrun]
    show (∃ s'', f' s' = _ ∧ _) ∨ ∃ e s'', f' s' = _ ∧ _
    rcases hm' s' with ⟨s'', hf', hrun', hs'⟩ | ⟨e, s'', hf', hrun', hs'⟩
    · exact .inl ⟨s'', hf', hrun', hR _ _ _ hs hs'⟩
    · exact .inr ⟨e, s'', hf', hrun', hR _ _ _ hs hs'⟩
  · rw [hf, bind_of_error hrun]
    exact .inr ⟨e, s', rfl, rfl, hs⟩

/-- A loop in place does what the fold computes. -/
theorem Realizes.forM {l : List α} {m : α → InPlace σ Unit} {f : σ → α → Except SolverError σ}
    (hrefl : ∀ s, R s s) (htrans : ∀ s s' s'', R s s' → R s' s'' → R s s'')
    (h : ∀ a, Realizes R (m a) fun s ↦ f s a) : Realizes R (l.forM m) fun s ↦ l.foldlM f s := by
  induction l with
  | nil => exact fun s ↦ .inl ⟨s, rfl, rfl, hrefl s⟩
  | cons a l ih => exact (h a).seq htrans ih

theorem Realizes.focus {Q : τ → τ → Prop} {enter : τ → σ} {leave : σ → τ} (h : Realizes R m f)
    (hQ : ∀ t s, R (enter t) s → Q t (leave s)) :
    Realizes Q (focus enter leave m) fun t ↦ (f (enter t)).map leave := by
  intro t
  dsimp only [InPlace.focus]
  rcases h (enter t) with ⟨s', hf, hrun, hs⟩ | ⟨e, s', hf, hrun, hs⟩
  · rw [hf, hrun]
    exact .inl ⟨leave s', rfl, rfl, hQ t s' hs⟩
  · rw [hf, hrun]
    exact .inr ⟨e, leave s', rfl, rfl, hQ t s' hs⟩

end InPlace

/-! ### Saving and restoring values -/

namespace Slots

/-- The values of all variables. -/
def snapshot (s : Slots) : Array (Option Value) := s.cells.map (Option.map Slot.value)

/-- Puts saved values back, in the variables that exist. -/
def restore (s : Slots) (saved : Array (Option Value)) : Slots :=
  ⟨s.cells.mapIdx fun i cell ↦ cell.map fun slot ↦
    { slot with value := (saved[i]?.join).getD slot.value }⟩

theorem cells_ext {s s' : Slots} (hnext : s'.next = s.next) (h : ∀ x, s'.get? x = s.get? x) :
    s' = s := by
  obtain ⟨cells⟩ := s
  obtain ⟨cells'⟩ := s'
  have hsize : cells'.size = cells.size := congrArg Id.index hnext
  have hcells : cells' = cells := by
    refine Array.ext hsize fun i hi hi' ↦ ?_
    have hget : (cells'[i]?).join = (cells[i]?).join := h ⟨i⟩
    rwa [Array.getElem?_eq_getElem hi, Array.getElem?_eq_getElem hi'] at hget
  rw [hcells]

/-- Assigning the value a variable had takes an assignment back. -/
theorem assign_assign_of_value {s : Slots} {x : ExtVar} {slot : Slot} (h : s.get? x = some slot)
    (v : Value) : (s.assign x v).assign x slot.value = s := by
  refine cells_ext ?_ fun y ↦ ?_
  · rw [(Reassigned.assign ..).1, (Reassigned.assign ..).1]
  · rw [get?_assign, get?_assign]
    split
    · next hy =>
      rw [hy, h]
      rfl
    · rfl

theorem get?_restore (s : Slots) (saved : Array (Option Value)) (x : ExtVar) :
    (s.restore saved).get? x = (s.get? x).map fun slot ↦
      { slot with value := (saved[x.index]?.join).getD slot.value } := by
  simp only [Arena.get?, restore, Array.getElem?_mapIdx]
  cases s.cells[x.index]? with
  | none => rfl
  | some cell => rfl

theorem join_snapshot (s : Slots) (x : ExtVar) :
    s.snapshot[x.index]?.join = (s.get? x).map Slot.value := by
  simp only [Arena.get?, snapshot, Array.getElem?_map]
  cases s.cells[x.index]? with
  | none => rfl
  | some cell => rfl

/-- Where only values changed, the saved values bring everything back. -/
theorem Reassigned.restore_snapshot {s s' : Slots} (h : s.Reassigned s') :
    s'.restore s.snapshot = s := by
  have hnext : (s'.restore s.snapshot).next = s'.next := by
    rw [Arena.next, Arena.next, restore, Array.size_mapIdx]
  refine cells_ext (hnext.trans h.1) fun x ↦ ?_
  rw [get?_restore, join_snapshot]
  have hflags : (s'.get? x).map (fun c ↦ (c.readonly, c.stay))
      = (s.get? x).map fun c ↦ (c.readonly, c.stay) := congrFun h.2 x
  rcases hs : s.get? x with _ | c
  · rw [hs, Option.map_none, Option.map_eq_none_iff] at hflags
    rw [hflags]
    rfl
  · rw [hs, Option.map_some, Option.map_eq_some_iff] at hflags
    obtain ⟨c', hs', hc⟩ := hflags
    obtain ⟨hreadonly, hstay⟩ := Prod.mk.inj hc
    rw [hs', Option.map_some, Option.map_some, Option.getD_some, hreadonly, hstay]

end Slots

namespace InPlace

/-- Saves the values of all variables before a run and puts them back if it fails. -/
def restoring (m : InPlace Slots Unit) : InPlace Slots Unit := fun s ↦
  match m s with
  | (.ok (), s') => (.ok (), s')
  | (.error e, s') => (.error e, s'.restore s.snapshot)

/-- **Rolling back.** A run in place that is rolled back after a failure is one step: it happens, or
it leaves no trace. -/
theorem restoring_eq_step {m : InPlace Slots Unit} {f : Slots → Except SolverError Slots}
    (h : Realizes Slots.Reassigned m f) : restoring m = step f := by
  funext s
  rcases h s with ⟨s', hf, hrun, -⟩ | ⟨e, s', hf, hrun, hs⟩
  · simp only [restoring, step, hf, hrun]
  · simp only [restoring, step, hf, hrun, hs.restore_snapshot]

end InPlace

/-! ### Relaxation in place -/

namespace Relaxation

/-- Sets the variables of `keeps` clauses. -/
def startInPlace (fixed : Option ExtVar) (starts : List (ExtVar × Float)) : InPlace Slots Unit :=
  starts.forM fun (x, v) ↦ .step fun s ↦
    if some x == fixed || s.isReadonly x then .ok s else s.assign? x (.number v)

/-- Moves variables by a multiple of their coefficients. -/
def moveInPlace (terms : List (ExtVar × Float)) (step : Float) : InPlace Slots Unit :=
  terms.forM fun (x, c) ↦ .step fun s ↦ s.assign? x (.number (s.number x + c * step))

/-- Projects the variables onto a relation that is violated; the flag falls when one is. -/
def repairInPlace (tolerance : Float) (pinned : List ExtVar) (rel : LinearRelation) :
    InPlace (Slots × Bool) Unit := fun (s, settled) ↦
  match rel.violation? s.number tolerance with
  | none => (.ok (), (s, settled))
  | some residual =>
    let terms := movable pinned s rel.form
    let denominator := terms.foldl (fun sum e ↦ sum + e.2 * e.2) (-0.0)
    if denominator < minDenominator then
      (.error (.unsatisfiable (.noWritableVariable residual)), (s, false))
    else InPlace.focus Prod.fst (·, false) (moveInPlace terms (-residual / denominator)) (s, false)

/-- Sweeps until one finds every relation satisfied, at most `n` times. The flag tells whether every
relation of the current sweep held so far. -/
def sweepsInPlace (r : Relaxation) (pinned : List ExtVar) (active : List LinearRelation) :
    Nat → InPlace (Slots × Bool) Unit
  | 0 => throw (.unsatisfiable (.notConverged r.maxSweeps))
  | n + 1 => do
    modify fun state ↦ (state.1, true)
    active.forM (repairInPlace r.tolerance pinned)
    if (← get).2 then return () else sweepsInPlace r pinned active n

/-- A run in which one variable may be held. -/
def runInPlace (r : Relaxation) (fixed : Option ExtVar) : InPlace Slots Unit := do
  let task := r.task fixed
  startInPlace fixed task.starts
  InPlace.focus (·, true) Prod.fst (r.sweepsInPlace task.pinned task.active r.maxSweeps)

open InPlace (Realizes)

theorem realizes_start (fixed : Option ExtVar) (starts : List (ExtVar × Float)) :
    Realizes Slots.Reassigned (startInPlace fixed starts) (start fixed starts) := by
  refine .forM .refl (fun _ _ _ ↦ .trans) fun e ↦ .step .refl fun s s' h ↦ ?_
  split at h
  · cases h
    exact .refl _
  · obtain ⟨-, rfl⟩ := Slots.of_assign?_ok h
    exact .assign ..

theorem realizes_move (terms : List (ExtVar × Float)) (step : Float) :
    Realizes Slots.Reassigned (moveInPlace terms step) (move terms step) :=
  .forM .refl (fun _ _ _ ↦ .trans) fun e ↦ .step .refl fun s s' h ↦ by
    obtain ⟨-, rfl⟩ := Slots.of_assign?_ok h
    exact .assign ..

/-- The variables of a sweep's state changed in value only. -/
def Moved (state state' : Slots × Bool) : Prop := state.1.Reassigned state'.1

theorem realizes_repair (tolerance : Float) (pinned : List ExtVar) (rel : LinearRelation) :
    Realizes Moved (repairInPlace tolerance pinned rel) (visit tolerance pinned · rel) := by
  intro (s, settled)
  simp only [repairInPlace, visit, repair?]
  rcases rel.violation? s.number tolerance with _ | residual
  · exact .inl ⟨_, rfl, rfl, .refl _⟩
  · dsimp only
    split
    · exact .inr ⟨_, _, rfl, rfl, .refl _⟩
    · next hdenominator =>
      obtain ⟨s', hf, hrun, hs⟩ | ⟨e, s', hf, hrun, hs⟩ := realizes_move (movable pinned s rel.form)
        (-residual / (movable pinned s rel.form).foldl (fun sum e ↦ sum + e.2 * e.2) (-0.0)) s
      · rw [hf]
        exact .inl ⟨_, rfl, by simp only [InPlace.focus, hrun], hs⟩
      · rw [hf]
        exact .inr ⟨e, (s', false), rfl, by simp only [InPlace.focus, hrun], hs⟩

/-- What `sweepsInPlace` computes. -/
def converge (r : Relaxation) (pinned : List ExtVar) (active : List LinearRelation) (n : Nat)
    (state : Slots × Bool) : Except SolverError (Slots × Bool) := do
  match ← sweeps r.tolerance pinned active n state.1 with
  | some s => return (s, true)
  | none => throw (.unsatisfiable (.notConverged r.maxSweeps))

theorem realizes_sweeps (r : Relaxation) (pinned : List ExtVar) (active : List LinearRelation)
    (n : Nat) :
    Realizes Moved (r.sweepsInPlace pinned active n) (r.converge pinned active n) := by
  induction n with
  | zero => exact fun s ↦ .inr ⟨_, s, rfl, rfl, .refl _⟩
  | succ n ih =>
    intro (s, settled)
    have hsweeps : sweeps r.tolerance pinned active (n + 1) s = (do
        let state ← active.foldlM (visit r.tolerance pinned) (s, true)
        if state.2 then return some state.1
        else sweeps r.tolerance pinned active n state.1) := rfl
    have hrunning : r.sweepsInPlace pinned active (n + 1) (s, settled) = (do
        active.forM (repairInPlace r.tolerance pinned)
        if (← get).2 then return () else r.sweepsInPlace pinned active n :
          InPlace (Slots × Bool) Unit) (s, true) := rfl
    rw [converge, hsweeps, hrunning]
    have hloop : Realizes Moved _ _ := .forM (l := active) (fun _ ↦ .refl _) (fun _ _ _ ↦ .trans)
      (realizes_repair r.tolerance pinned)
    obtain ⟨⟨s', settled'⟩, hf, hrun, hs⟩ | ⟨e, state', hf, hrun, hs⟩ := hloop (s, true)
    · rw [hf, InPlace.bind_of_ok hrun]
      cases settled' with
      | true => exact .inl ⟨(s', true), rfl, rfl, hs⟩
      | false =>
        obtain ⟨state'', hf', hrun', hs'⟩ | ⟨e, state'', hf', hrun', hs'⟩ := ih (s', false)
        · exact .inl ⟨state'', hf', hrun', hs.trans hs'⟩
        · exact .inr ⟨e, state'', hf', hrun', hs.trans hs'⟩
    · rw [hf, InPlace.bind_of_error hrun]
      exact .inr ⟨e, state', rfl, rfl, hs⟩

theorem realizes_run (r : Relaxation) (fixed : Option ExtVar) :
    Realizes Slots.Reassigned (r.runInPlace fixed) (r.run fixed) := by
  have hsweeps : Realizes Slots.Reassigned (InPlace.focus (·, true) Prod.fst _) _ :=
    (r.realizes_sweeps (r.task fixed).pinned (r.task fixed).active r.maxSweeps).focus fun _ _ h ↦ h
  have hrun := (realizes_start fixed (r.task fixed).starts).seq (fun _ _ _ ↦ .trans) hsweeps
  have hf : (fun s ↦ start fixed (r.task fixed).starts s >>= fun s ↦
      (r.converge (r.task fixed).pinned (r.task fixed).active r.maxSweeps (s, true)).map Prod.fst)
      = r.run fixed := by
    funext s
    rw [run]
    rcases start fixed (r.task fixed).starts s with e | s'
    · rfl
    · dsimp only [converge, bind, Except.bind]
      rcases sweeps r.tolerance (r.task fixed).pinned (r.task fixed).active r.maxSweeps s'
        with e | _ | s'' <;> rfl
  rwa [hf] at hrun

end Relaxation

/-! ### Dataflow planning in place -/

namespace Dataflow

/-- One pass over the pending equations. -/
def passInPlace : InPlace Plan Unit := do
  let pending := (← get).pending
  modify fun plan ↦ { plan with pending := [] }
  pending.forM fun form ↦ .step (visit · form)

/-- Passes over the pending equations until none is left, at most `n` times. -/
def passesInPlace : Nat → InPlace Plan Unit
  | 0 => return ()
  | n + 1 => do
    let plan ← get
    if plan.pending.isEmpty then return ()
    else do
      passInPlace
      modify fun next ↦ if next.pending.length = plan.pending.length then commit next else next
      passesInPlace n

/-- A run in which some variables are held. -/
def propagateInPlace (d : Dataflow) (fixed : List ExtVar) : InPlace Slots Unit :=
  InPlace.focus (fun slots ↦ { slots, determined := fixed, pending := d.equations }) Plan.slots do
    d.keepers.forM fun keeper ↦ .step (startOne fixed · keeper)
    modify determineReadonly
    passesInPlace (2 * d.equations.length)

/-- Sets the edited variables to a batch of numbers, one after another. -/
def assignBatchInPlace (batch : List (ExtVar × Value)) : InPlace Slots Unit :=
  batch.forM fun (x, v) ↦ .step fun s ↦ do
    let number ← number? v
    return s.assign x (.number number)

open InPlace (Realizes)

/-- The variables of a plan changed in value only. -/
def Plan.Moved (plan plan' : Plan) : Prop := plan.slots.Reassigned plan'.slots

theorem Plan.Moved.refl (plan : Plan) : plan.Moved plan := Slots.Reassigned.refl _

theorem Plan.Moved.trans (plan plan' plan'' : Plan) (h : plan.Moved plan')
    (h' : plan'.Moved plan'') : plan.Moved plan'' := Slots.Reassigned.trans h h'

theorem realizes_visits (forms : List LinearForm) :
    Realizes Plan.Moved (forms.forM fun form ↦ .step (visit · form)) fun plan ↦
      forms.foldlM visit plan :=
  .forM Plan.Moved.refl Plan.Moved.trans fun _ ↦ .step Plan.Moved.refl fun _ _ h ↦
    (visited_of_visit h).later.slots

theorem realizes_starts (fixed : List ExtVar) (keepers : List (ExtVar × Float × Bool)) :
    Realizes Plan.Moved (keepers.forM fun keeper ↦ .step (startOne fixed · keeper)) fun plan ↦
      keepers.foldlM (startOne fixed) plan :=
  .forM Plan.Moved.refl Plan.Moved.trans fun _ ↦ .step Plan.Moved.refl fun _ _ h ↦
    (startOne_ok h).1

theorem realizes_pass : Realizes Plan.Moved passInPlace pass :=
  fun plan ↦ realizes_visits plan.pending { plan with pending := [] }

theorem realizes_passes (n : Nat) : Realizes Plan.Moved (passesInPlace n) (passes n) := by
  induction n with
  | zero => exact fun plan ↦ .inl ⟨plan, rfl, rfl, .refl _⟩
  | succ n ih =>
    intro plan
    have hrunning : passesInPlace (n + 1) plan = (if plan.pending.isEmpty then pure () else (do
        passInPlace
        modify fun next ↦ if next.pending.length = plan.pending.length then commit next else next
        passesInPlace n) : InPlace Plan Unit) plan := rfl
    rw [passes, hrunning]
    split
    · exact .inl ⟨plan, rfl, rfl, .refl _⟩
    · have hcommit : Realizes Plan.Moved
          (modify fun next ↦ if next.pending.length = plan.pending.length then commit next else next)
          fun next ↦ .ok (if next.pending.length = plan.pending.length then commit next else next) :=
        .modify fun next ↦ by
          split
          · exact (commit_ok next).1.slots
          · exact .refl _
      exact realizes_pass.seq Plan.Moved.trans (hcommit.seq Plan.Moved.trans ih) plan

theorem realizes_propagate (d : Dataflow) (fixed : List ExtVar) :
    Realizes Slots.Reassigned (d.propagateInPlace fixed) (d.propagate fixed) := by
  have hreadonly : Realizes Plan.Moved (modify determineReadonly) fun plan ↦
      .ok (determineReadonly plan) :=
    .modify fun plan ↦ by
      rw [Plan.Moved, (determineReadonly_ok plan).1]
      exact .refl _
  have hplan := (realizes_starts fixed d.keepers).seq Plan.Moved.trans
    (hreadonly.seq Plan.Moved.trans (realizes_passes (2 * d.equations.length)))
  have hrun : Realizes Slots.Reassigned (d.propagateInPlace fixed) _ := hplan.focus fun _ _ h ↦ h
  have hf : d.propagate fixed = fun s ↦ (d.keepers.foldlM (startOne fixed)
      { slots := s, determined := fixed, pending := d.equations } >>= fun plan ↦
        Except.ok (determineReadonly plan) >>= passes (2 * d.equations.length)).map Plan.slots := by
    funext s
    rw [propagate]
    rcases d.keepers.foldlM (startOne fixed) _ with e | plan
    · rfl
    · show (passes (2 * d.equations.length) (determineReadonly plan) >>= _) =
        (passes (2 * d.equations.length) (determineReadonly plan)).map _
      rcases passes (2 * d.equations.length) (determineReadonly plan) with e | plan <;> rfl
  rwa [hf]

theorem realizes_assignBatch (batch : List (ExtVar × Value)) :
    Realizes Slots.Reassigned (assignBatchInPlace batch) (assignBatch · batch) :=
  .forM .refl (fun _ _ _ ↦ .trans) fun e ↦ .step .refl fun s s' h ↦ by
    obtain ⟨number, -, h⟩ := Except.of_bind_ok h
    cases h
    exact .assign ..

end Dataflow

end LiveConstraints

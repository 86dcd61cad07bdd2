import LiveConstraints.Proofs.InPlace
import LiveConstraints.Proofs.Solver
/-!
# Rolling back a failed call

The calls of the reference algorithms that may fail, on variables that are moved in place and rolled
back. They come to the same as the calls that hand over their variables only when they succeed
(`Solver.requestInPlace_eq`), and a call that fails leaves everything but the counters of a solver
as it was (`Solver.uncounted_eq_of_refused`).

`Algorithm.keepsRejected` is no reference algorithm for this reason: it keeps what it rejects.
-/

namespace LiveConstraints

variable {σ τ α : Type}

/-! ### Calls in place -/

namespace Model

variable {ρ υ : Type} (m : Model ρ υ)

/-- Runs in place on the variables of a model. -/
def runInPlace (run : InPlace Slots Unit) : Except SolverError Unit × Model ρ υ :=
  ((run m.slots).1, { m with slots := (run m.slots).2 })

/-- Running one step in place is settling on what it computes. -/
theorem runInPlace_step (f : Slots → Except SolverError Slots) :
    m.runInPlace (.step f) = m.settle (f m.slots) := by
  rw [runInPlace, InPlace.step]
  rcases f m.slots with e | s <;> rfl

/-- Nothing but the counters is looked at after this. -/
def uncounted : Model ρ υ := { m with stats := {} }

end Model

namespace Relaxation

variable (r : Relaxation)

/-- Derives values for all enabled clauses. -/
def solveInPlace : Except SolverError Unit × Relaxation :=
  let r := { r with model := r.model.countSolve }
  let (result, model) := r.model.runInPlace (.restoring (r.runInPlace none))
  (result, { r with model })

/-- Adopts a value for one variable and moves the others around it. -/
def suggestInPlace (x : ExtVar) (v : Value) : Except SolverError Unit × Relaxation :=
  match number? v with
  | .error e => (.error e, r)
  | .ok number =>
    let r := { r with model := r.model.countSolve }
    let (result, model) := r.model.runInPlace <| .restoring do
      .step fun s ↦ s.assign? x (.number number)
      r.runInPlace (some x)
    (result, { r with model })

theorem solveInPlace_eq : r.solveInPlace = r.solve := by
  rw [solveInPlace, InPlace.restoring_eq_step (realizes_run _ _), Model.runInPlace_step]
  rfl

theorem suggestInPlace_eq (x : ExtVar) (v : Value) : r.suggestInPlace x v = r.suggest x v := by
  rw [suggestInPlace, suggest]
  rcases number? v with e | number
  · rfl
  · have hrun := (InPlace.realizes_assign? x (.number number)).seq (fun _ _ _ ↦ .trans)
      (realizes_run { r with model := r.model.countSolve } (some x))
    dsimp only
    rw [InPlace.restoring_eq_step hrun, Model.runInPlace_step]
    rcases r.model.countSolve.slots.assign? x (.number number) with e | s <;> rfl

end Relaxation

namespace Dataflow

variable (d : Dataflow)

/-- Derives values for all enabled clauses. -/
def solveInPlace : Except SolverError Unit × Dataflow :=
  let d := { d with model := d.model.countSolve }
  let (result, model) := d.model.runInPlace (.restoring (d.propagateInPlace []))
  (result, { d with model })

/-- Adopts a value for one variable and moves the others around it. -/
def suggestInPlace (x : ExtVar) (v : Value) : Except SolverError Unit × Dataflow :=
  match number? v with
  | .error e => (.error e, d)
  | .ok number =>
    match d.model.slots.get? x with
    | none => (.error (.unknownVariable x), d)
    | some slot =>
      if slot.value.near v then (.ok (), d)
      else
        let d := { d with model := d.model.countConstruction.countSolve }
        let (result, model) := d.model.runInPlace <| .restoring do
          modify fun s ↦ s.assign x (.number number)
          d.propagateInPlace [x]
        (result, { d with model })

/-- Sets the variables of the open session, one after another, and moves the others around them. -/
def resolveBatchInPlace (solver : String) (values : List Value) :
    Except SolverError Unit × Dataflow :=
  match d.editing with
  | none => (.error (.unsupported (.noOpenSession solver)), d)
  | some xs =>
    if xs.length ≠ values.length then
      (.error (.unsupported (.batchSize xs.length values.length)), d)
    else
      let d := { d with model := d.model.countSolve }
      let (result, model) := d.model.runInPlace <| .restoring do
        assignBatchInPlace (xs.zip values)
        d.propagateInPlace xs
      (result, { d with model })

theorem solveInPlace_eq : d.solveInPlace = d.solve := by
  rw [solveInPlace, InPlace.restoring_eq_step (realizes_propagate _ _), Model.runInPlace_step]
  rfl

theorem suggestInPlace_eq (x : ExtVar) (v : Value) : d.suggestInPlace x v = d.suggest x v := by
  rw [suggestInPlace, suggest]
  rcases number? v with e | number
  · rfl
  · rcases d.model.slots.get? x with _ | slot
    · rfl
    · dsimp only
      split
      · rfl
      · have hassign : InPlace.Realizes Slots.Reassigned
            (modify fun s ↦ s.assign x (.number number)) fun s ↦ .ok (s.assign x (.number number)) :=
          .modify fun s ↦ .assign ..
        rw [InPlace.restoring_eq_step (hassign.seq (fun _ _ _ ↦ .trans) (realizes_propagate _ _)),
          Model.runInPlace_step]
        rfl

theorem resolveBatchInPlace_eq (solver : String) (values : List Value) :
    d.resolveBatchInPlace solver values = d.resolveBatch solver values := by
  rw [resolveBatchInPlace, resolveBatch]
  rcases d.editing with _ | xs
  · rfl
  · dsimp only
    split
    · rfl
    · rw [InPlace.restoring_eq_step ((realizes_assignBatch _).seq (fun _ _ _ ↦ .trans)
        (realizes_propagate _ _)), Model.runInPlace_step]
      rcases assignBatch d.model.countSolve.slots (xs.zip values) with e | s <;> rfl

end Dataflow

namespace DomainSearch

variable (d : DomainSearch)

/-- Adopts a value and searches values for the other variables. A search assigns nothing before it
has found everything, so only the adopted value has to be taken back. -/
def adoptInPlace (x : ExtVar) (v : Value) : InPlace Slots Unit := fun s ↦
  match s.get? x with
  | none => (.error (.unknownVariable x), s)
  | some slot =>
    match InPlace.step (d.search (some x)) (s.assign x v) with
    | (.ok (), s') => (.ok (), s')
    | (.error e, s') => (.error e, s'.assign x slot.value)

/-- Adopts a value for one variable and searches values for the others around it. -/
def suggestInPlace (x : ExtVar) (v : Value) : Except SolverError Unit × DomainSearch :=
  let d := { d with model := d.model.countSolve }
  let (result, model) := d.model.runInPlace (d.adoptInPlace x v)
  (result, { d with model })

theorem adoptInPlace_eq_step (x : ExtVar) (v : Value) :
    d.adoptInPlace x v = .step fun s ↦ s.assign? x v >>= d.search (some x) := by
  funext s
  rcases hx : s.get? x with _ | slot
  · have hassign : s.assign? x v = .error (.unknownVariable x) := by
      rw [Slots.assign?, Arena.contains, hx]
      rfl
    simp only [adoptInPlace, InPlace.step, hx, hassign, bind, Except.bind]
  · have hassign : s.assign? x v = .ok (s.assign x v) := by
      rw [Slots.assign?, Arena.contains, hx]
      rfl
    simp only [adoptInPlace, InPlace.step, hx, hassign, bind, Except.bind]
    rcases d.search (some x) (s.assign x v) with e | s'
    · simp only [Slots.assign_assign_of_value hx]
    · rfl

theorem suggestInPlace_eq (x : ExtVar) (v : Value) : d.suggestInPlace x v = d.suggest x v := by
  rw [suggestInPlace, adoptInPlace_eq_step, Model.runInPlace_step, suggest]
  dsimp only
  rcases d.model.countSolve.slots.assign? x v with e | s <;> rfl

end DomainSearch

/-! ### Failed requests -/

/-- What a solver is asked for that it may refuse, but for switching a clause. -/
inductive SolverRequest where
  /-- Derive values for all enabled clauses. -/
  | solve
  /-- Adopt a value. -/
  | suggest (x : ExtVar) (v : Value)
  /-- Set the variables of the open edit session. -/
  | resolveBatch (values : List Value)
  /-- Open an edit session. -/
  | beginEdit (xs : List ExtVar)
  /-- Compile a term. -/
  | compile (t : Term)
  /-- Compile the demand that a variable keeps a value. -/
  | keep (x : ExtVar) (v : Value)

namespace Solver

/-- The solver but for its counters. -/
def uncounted (s : Solver) : Solver :=
  (s.call (fun m ↦ ((), m.uncounted)) (fun b ↦ ((), b)) fun c ↦ ((), c)).2

/-- Makes a request. Which primitive was compiled is left out. -/
def request (s : Solver) : SolverRequest → Except SolverError Unit × Solver
  | .solve => s.solve
  | .suggest x v => s.suggest x v
  | .resolveBatch values => s.resolveBatch values
  | .beginEdit xs => s.beginEdit xs
  | .compile t => ((s.compile t).1.map fun _ ↦ (), (s.compile t).2)
  | .keep x v => ((s.keep x v).1.map fun _ ↦ (), (s.keep x v).2)

/-- Makes a request of a solver that moves its variables in place and rolls back after a failure. -/
def requestInPlace (s : Solver) (request : SolverRequest) : Except SolverError Unit × Solver :=
  match s.algorithm, request with
  | .relaxation r, .solve => s.answer .relaxation r.solveInPlace
  | .relaxation r, .suggest x v => s.answer .relaxation (r.suggestInPlace x v)
  | .dataflow d, .solve => s.answer .dataflow d.solveInPlace
  | .dataflow d, .suggest x v => s.answer .dataflow (d.suggestInPlace x v)
  | .dataflow d, .resolveBatch values =>
    s.answer .dataflow (d.resolveBatchInPlace s.innerName values)
  | .domainSearch d, .suggest x v => s.answer .domainSearch (d.suggestInPlace x v)
  | _, request => s.request request

theorem requestInPlace_eq (s : Solver) (request : SolverRequest) :
    s.requestInPlace request = s.request request := by
  obtain ⟨name, innerName, weight, algorithm⟩ := s
  cases algorithm with
  | relaxation r =>
    cases request with
    | solve => exact congrArg (answer _ .relaxation) r.solveInPlace_eq
    | suggest x v => exact congrArg (answer _ .relaxation) (r.suggestInPlace_eq x v)
    | _ => rfl
  | dataflow d =>
    cases request with
    | solve => exact congrArg (answer _ .dataflow) d.solveInPlace_eq
    | suggest x v => exact congrArg (answer _ .dataflow) (d.suggestInPlace_eq x v)
    | resolveBatch values =>
      exact congrArg (answer _ .dataflow) (d.resolveBatchInPlace_eq innerName values)
    | _ => rfl
  | domainSearch d =>
    cases request with
    | suggest x v => exact congrArg (answer _ .domainSearch) (d.suggestInPlace_eq x v)
    | _ => rfl
  | keepsRejected r => rfl
  | stub b => rfl
  | custom c => rfl

end Solver

/-! ### Failures without a trace -/

/-- Where a call fails, it leaves alone what is looked at of the state. -/
def Traceless {β : Type} (look : σ → β) (s : σ) (outcome : Except SolverError α × σ) : Prop :=
  ∀ e, outcome.1 = .error e → look outcome.2 = look s

namespace Traceless

variable {β : Type} {look : σ → β} {s : σ}

theorem refused (e : SolverError) : Traceless look s ((.error e, s) : Except SolverError α × σ) :=
  fun _ _ ↦ rfl

theorem returned {s' : σ} (a : α) : Traceless look s ((.ok a, s') : Except SolverError α × σ) :=
  nofun

/-- What is looked at may have been left alone before already. -/
theorem of_eq {s' : σ} {outcome : Except SolverError α × σ} (h : Traceless look s' outcome)
    (hs : look s' = look s) : Traceless look s outcome := fun e he ↦ (h e he).trans hs

end Traceless

theorem Model.traceless_settle {ρ υ : Type} (m : Model ρ υ) (run : Except SolverError Slots) :
    Traceless uncounted m (m.settle run) := by
  rcases run with e | s
  · exact .refused e
  · exact .returned ()

namespace Relaxation

/-- The solver but for its counters. -/
def uncounted (r : Relaxation) : Relaxation := { r with model := r.model.uncounted }

variable (r : Relaxation)

theorem traceless_run (fixed : Option ExtVar) (s : Slots) :
    Traceless uncounted r (r.runFrom fixed s) := fun e h ↦
  congrArg (fun model ↦ { r with model }) (r.model.traceless_settle _ e h)

theorem traceless_solve : Traceless uncounted r r.solve := (traceless_run _ _ _).of_eq rfl

theorem traceless_suggest (x : ExtVar) (v : Value) : Traceless uncounted r (r.suggest x v) := by
  unfold suggest
  split
  · exact .refused _
  · dsimp only
    split
    · exact (Traceless.refused _).of_eq rfl
    · exact (traceless_run _ _ _).of_eq rfl

theorem traceless_compile (t : Term) : Traceless uncounted r (r.compile t) := by
  unfold compile
  split
  · exact .refused _
  · exact .returned _

theorem traceless_keep (x : ExtVar) (v : Value) : Traceless uncounted r (r.keep x v) := by
  unfold keep
  split
  · exact .refused _
  · split
    · exact .refused _
    · exact .returned _

end Relaxation

namespace Dataflow

/-- The solver but for its counters. The open edit session is part of it. -/
def uncounted (d : Dataflow) : Dataflow := { d with model := d.model.uncounted }

variable (d : Dataflow)

theorem traceless_run (fixed : List ExtVar) (s : Slots) :
    Traceless uncounted d (d.runFrom fixed s) := fun e h ↦
  congrArg (fun model ↦ { d with model }) (d.model.traceless_settle _ e h)

theorem traceless_solve : Traceless uncounted d d.solve := (traceless_run _ _ _).of_eq rfl

theorem traceless_suggest (x : ExtVar) (v : Value) : Traceless uncounted d (d.suggest x v) := by
  unfold suggest
  split
  · exact .refused _
  · split
    · exact .refused _
    · split
      · exact .returned ()
      · exact (traceless_run _ _ _).of_eq rfl

theorem traceless_resolveBatch (solver : String) (values : List Value) :
    Traceless uncounted d (d.resolveBatch solver values) := by
  unfold resolveBatch
  split
  · exact .refused _
  · split
    · exact .refused _
    · dsimp only
      split
      · exact (Traceless.refused _).of_eq rfl
      · exact (traceless_run _ _ _).of_eq rfl

theorem traceless_beginEdit (xs : List ExtVar) : Traceless uncounted d (d.beginEdit xs) := by
  unfold beginEdit
  split
  · exact .refused _
  · exact .returned ()

theorem traceless_compile (t : Term) : Traceless uncounted d (d.compile t) := by
  unfold compile
  split
  · exact .refused _
  · exact .returned _

theorem traceless_keep (x : ExtVar) (v : Value) : Traceless uncounted d (d.keep x v) := by
  unfold keep
  split
  · exact .refused _
  · split
    · exact .refused _
    · exact .returned _

end Dataflow

namespace DomainSearch

/-- The solver but for its counters. -/
def uncounted (d : DomainSearch) : DomainSearch := { d with model := d.model.uncounted }

variable (d : DomainSearch)

theorem traceless_run (fixed : Option ExtVar) (s : Slots) :
    Traceless uncounted d (d.runFrom fixed s) := fun e h ↦
  congrArg (fun model ↦ { d with model }) (d.model.traceless_settle _ e h)

theorem traceless_solve : Traceless uncounted d d.solve := (traceless_run _ _ _).of_eq rfl

theorem traceless_suggest (x : ExtVar) (v : Value) : Traceless uncounted d (d.suggest x v) := by
  unfold suggest
  dsimp only
  split
  · exact (Traceless.refused _).of_eq rfl
  · exact (traceless_run _ _ _).of_eq rfl

theorem traceless_compile (t : Term) : Traceless uncounted d (d.compile t) := by
  unfold compile
  split
  · exact .refused _
  · exact .returned _

theorem traceless_keep (x : ExtVar) (v : Value) : Traceless uncounted d (d.keep x v) := by
  unfold keep
  split
  · exact .refused _
  · exact .returned _

end DomainSearch

namespace Solver

variable {s : Solver}

theorem traceless_map {β : Type} {outcome : Except SolverError α × Solver}
    (h : Traceless uncounted s outcome) (f : α → β) :
    Traceless uncounted s (outcome.1.map f, outcome.2) := by
  rcases outcome with ⟨e | a, s'⟩
  · exact fun e' he' ↦ h e rfl
  · exact .returned (f a)

/-- What an algorithm leaves alone, the solver around it leaves alone. -/
theorem traceless_answer {wrap : τ → Algorithm} {look : τ → τ} {t : τ}
    {outcome : Except SolverError α × τ}
    (hlook : ∀ t, uncounted { s with algorithm := wrap t } = { s with algorithm := wrap (look t) })
    (hs : s.algorithm = wrap t) (h : Traceless look t outcome) :
    Traceless uncounted s (s.answer wrap outcome) := by
  intro e he
  have hself : uncounted s = { s with algorithm := wrap (look t) } := by rw [← hlook t, ← hs]
  rw [hself, ← h e he, answer, hlook]

theorem traceless_solve (hs : s.IsReference) :
    Traceless uncounted s (s.solve) := by
  obtain ⟨name, innerName, weight, algorithm⟩ := s
  cases algorithm with
  | relaxation r => exact traceless_answer (fun _ ↦ rfl) rfl (r.traceless_solve)
  | dataflow d => exact traceless_answer (fun _ ↦ rfl) rfl (d.traceless_solve)
  | domainSearch d => exact traceless_answer (fun _ ↦ rfl) rfl (d.traceless_solve)
  | keepsRejected r => exact hs.elim
  | stub b => exact hs.elim
  | custom c => exact hs.elim

theorem traceless_suggest (hs : s.IsReference) (x : ExtVar) (v : Value) :
    Traceless uncounted s (s.suggest x v) := by
  obtain ⟨name, innerName, weight, algorithm⟩ := s
  cases algorithm with
  | relaxation r => exact traceless_answer (fun _ ↦ rfl) rfl (r.traceless_suggest x v)
  | dataflow d => exact traceless_answer (fun _ ↦ rfl) rfl (d.traceless_suggest x v)
  | domainSearch d => exact traceless_answer (fun _ ↦ rfl) rfl (d.traceless_suggest x v)
  | keepsRejected r => exact hs.elim
  | stub b => exact hs.elim
  | custom c => exact hs.elim

theorem traceless_resolveBatch (hs : s.IsReference) (values : List Value) :
    Traceless uncounted s (s.resolveBatch values) := by
  obtain ⟨name, innerName, weight, algorithm⟩ := s
  cases algorithm with
  | relaxation r => exact .refused _
  | dataflow d => exact traceless_answer (fun _ ↦ rfl) rfl (d.traceless_resolveBatch innerName values)
  | domainSearch d => exact .refused _
  | keepsRejected r => exact hs.elim
  | stub b => exact hs.elim
  | custom c => exact hs.elim

theorem traceless_beginEdit (hs : s.IsReference) (xs : List ExtVar) :
    Traceless uncounted s (s.beginEdit xs) := by
  obtain ⟨name, innerName, weight, algorithm⟩ := s
  cases algorithm with
  | relaxation r => exact .refused _
  | dataflow d => exact traceless_answer (fun _ ↦ rfl) rfl (d.traceless_beginEdit xs)
  | domainSearch d => exact .refused _
  | keepsRejected r => exact hs.elim
  | stub b => exact hs.elim
  | custom c => exact hs.elim

theorem traceless_compile (hs : s.IsReference) (t : Term) :
    Traceless uncounted s (s.compile t) := by
  obtain ⟨name, innerName, weight, algorithm⟩ := s
  cases algorithm with
  | relaxation r => exact traceless_answer (fun _ ↦ rfl) rfl (r.traceless_compile t)
  | dataflow d => exact traceless_answer (fun _ ↦ rfl) rfl (d.traceless_compile t)
  | domainSearch d => exact traceless_answer (fun _ ↦ rfl) rfl (d.traceless_compile t)
  | keepsRejected r => exact hs.elim
  | stub b => exact hs.elim
  | custom c => exact hs.elim

theorem traceless_keep (hs : s.IsReference) (x : ExtVar) (v : Value) :
    Traceless uncounted s (s.keep x v) := by
  obtain ⟨name, innerName, weight, algorithm⟩ := s
  cases algorithm with
  | relaxation r => exact traceless_answer (fun _ ↦ rfl) rfl (r.traceless_keep x v)
  | dataflow d => exact traceless_answer (fun _ ↦ rfl) rfl (d.traceless_keep x v)
  | domainSearch d => exact traceless_answer (fun _ ↦ rfl) rfl (d.traceless_keep x v)
  | keepsRejected r => exact hs.elim
  | stub b => exact hs.elim
  | custom c => exact hs.elim

/-- A reference solver that refuses a request is left as it was, but for its counters. -/
theorem traceless_request (hs : s.IsReference) (request : SolverRequest) :
    Traceless uncounted s (s.request request) := by
  cases request with
  | solve => exact traceless_solve hs
  | suggest x v => exact traceless_suggest hs x v
  | resolveBatch values => exact traceless_resolveBatch hs values
  | beginEdit xs => exact traceless_beginEdit hs xs
  | compile t => exact traceless_map (traceless_compile hs t) _
  | keep x v => exact traceless_map (traceless_keep hs x v) _

/-- **Refused requests.** A reference solver that refuses a request keeps every variable with its
value, read-only flag and stay, every clause with its priority, and its open edit session; at most
its counters change. It does so also when it moves its variables in place and rolls back. -/
theorem uncounted_eq_of_refused (hs : s.IsReference) (request : SolverRequest) {e : SolverError}
    (h : (s.request request).1 = .error e) :
    (s.request request).2.uncounted = s.uncounted ∧
      s.requestInPlace request = s.request request :=
  ⟨traceless_request hs request e h, s.requestInPlace_eq request⟩

/-- Three variables that two equations keep equal. The last one is read-only. -/
def tether : Dataflow :=
  let equal (x y : ExtVar) : Term := .binary .eq (.var x) (.var y)
  let (_, d) := Dataflow.declare {} (.number 1)
  let (_, d) := d.declare (.number 1)
  let (_, d) := d.declare (.number 1)
  let (_, d) := d.compile (equal ⟨0⟩ ⟨1⟩)
  let (_, d) := d.compile (equal ⟨1⟩ ⟨2⟩)
  let (_, model) := d.model.setEnabled ⟨0⟩ (some .required)
  let (_, model) := model.setEnabled ⟨1⟩ (some .required)
  { d with model := model.setReadonly ⟨2⟩ true }

/-- A solver with the three variables. -/
def tethered : Solver := named "dataflow" 200 (.dataflow tether)

/-- The second variable moves along with the first one before the read-only one stops the run. All of
them are put back. -/
theorem uncounted_eq_tethered :
    ((tether.propagateInPlace [⟨0⟩]) (tether.model.slots.assign ⟨0⟩ (.number 5))).2.value ⟨1⟩
      = .number 5 ∧
    (tethered.request (.suggest ⟨0⟩ (.number 5))).1.isOk = false ∧
    (tethered.request (.suggest ⟨0⟩ (.number 5))).2.uncounted = tethered.uncounted := by
  have hrefused : (tethered.request (.suggest ⟨0⟩ (.number 5))).1.isOk = false := by decide +kernel
  refine ⟨by decide +kernel, hrefused, ?_⟩
  have href : tethered.IsReference := trivial
  rcases hrun : (tethered.request (.suggest ⟨0⟩ (.number 5))).1 with e | u
  · exact (uncounted_eq_of_refused href _ hrun).1
  · rw [hrun] at hrefused
    cases hrefused

end Solver

end LiveConstraints

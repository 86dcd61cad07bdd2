import LiveConstraints.Proofs.Memos
import LiveConstraints.Proofs.Requests
/-!
# Reachable engines

An engine is driven if it comes about from one without solvers by answering requests, whatever its hooks
and handlers do and however deeply calls may be nested (`Engine.Driven`). A request that was interrupted
has no answer, so nothing is said about the engine after it.

It is reachable if, besides, it evaluates predicates as expressions and the solvers that are registered
are the reference solvers, as they are before their first use (`Engine.Reachable`). The invariant holds of
every reachable engine, whatever the answers were, and between two requests the engine is at rest: no guard
is raised, nothing is deferred and no hook is collected.
-/

namespace LiveConstraints

/-- A field of an object. -/
def Expr.fieldOf (obj : Nat) (name : String) : Expr := .member (.const (.object ⟨obj⟩)) name

namespace Engine

variable {config : Setup} {e e' : Engine} {request : Request} {requests : List Request}

/-- What an engine may become by answering any requests at all, with any solvers, whatever its hooks
and handlers do and however deeply calls may be nested. -/
inductive Driven (config : Setup) : Engine → Prop where
  /-- An engine without solvers. -/
  | new : Driven config (new config)
  /-- A request was answered, successfully or not. -/
  | answer {e : Engine} {n : Nat} {program : Program} {request : Request} (before : Driven config e)
      (returns : (Call.perform (Reentry.reacting program n) request e).1 ≠ .error .tooDeep) :
      Driven config (Call.perform (Reentry.reacting program n) request e).2

/-- What an engine that evaluates predicates as expressions may become by answering requests that may be
made, if hooks and handlers make no others. -/
inductive Reachable (config : Setup) : Engine → Prop where
  /-- An engine without solvers. -/
  | new (evaluator : config.evaluator = .expressions) : Reachable config (new config)
  /-- A request was answered, successfully or not. -/
  | answer {e : Engine} {n : Nat} {program : Program} {request : Request}
      (before : Reachable config e) (reacts : program.Admissible) (admissible : request.Admissible)
      (returns : (Call.perform (Reentry.reacting program n) request e).1 ≠ .error .tooDeep) :
      Reachable config (Call.perform (Reentry.reacting program n) request e).2

theorem Reachable.driven (h : Reachable config e) : Driven config e := by
  induction h with
  | new _ => exact .new
  | answer _ _ _ returns ih => exact ih.answer returns

/-- An engine has hooks and handlers make the requests they are handed over as. -/
theorem answer_eq_perform (e : Engine) (request : Request) : e.answer request =
    Call.perform (Reentry.reacting (fun requests _ ↦ .ofList requests) nestingLimit) request e := by
  rw [Reentry.reacting_ofList]
  rfl

/-- No call is in progress. -/
structure AtRest (e : Engine) : Prop where
  /-- No guard is raised. -/
  guards : e.guards = { generation := e.guards.generation }
  /-- Nothing is deferred. -/
  deferred : e.deferred = []
  /-- No hook is collected. -/
  pending : e.pendingHooks = none

/-- **Answering a request** keeps the invariant. -/
theorem settles_reacting {program : Program} {n : Nat} (hs : e.Sound) (hprogram : program.Admissible)
    (ha : request.Admissible)
    (returns : (Call.perform (Reentry.reacting program n) request e).1 ≠ .error .tooDeep) :
    Settles e (Call.perform (Reentry.reacting program n) request e).2 :=
  Call.settles_perform (Reentry.lawful_reacting hprogram n) hs ha returns

theorem Settles.atRest (h : Settles e e') (hrest : e.AtRest) : e'.AtRest where
  guards := by rw [h.evolves.guards, hrest.guards]
  deferred := h.deferred (congrArg Guards.nesting hrest.guards)
    (congrArg Guards.draining hrest.guards) hrest.deferred
  pending := h.evolves.pending hrest.pending

/-- **The invariant** holds of every reachable engine. -/
theorem Reachable.sound (h : Reachable config e) : e.Sound := by
  induction h with
  | new evaluator => exact sound_new evaluator
  | answer _ reacts admissible returns ih =>
    exact (settles_reacting ih reacts admissible returns).sound ih

/-- **Between requests** the engine is at rest. -/
theorem Reachable.atRest (h : Reachable config e) : e.AtRest := by
  induction h with
  | new _ => exact ⟨rfl, rfl, rfl⟩
  | answer before reacts admissible returns ih =>
    exact (settles_reacting before.sound reacts admissible returns).atRest ih

/-! ### What is asked from outside -/

/-- The value that a field reports. -/
def reported? (e : Engine) (obj : ObjectId) (field : String) : Option Value :=
  match (e.answer (.read obj field)).1 with
  | .ok (.value v) => some v
  | _ => none

/-- The solver that defines a field, with its variable for the field. -/
def definedAs? (e : Engine) (obj : ObjectId) (field : String) : Option (SolverId × ExtVar) :=
  (e.variableOf? obj field).bind fun x ↦ (Step.defining x e).1.map fun d ↦ (d.solver, d.handle)

/-- Reading a field that is intercepted. -/
theorem reported?_of_intercepted {obj : ObjectId} {field : String} {x : VarId}
    (hx : e.variableOf? obj field = some x) : e.reported? obj field = some (Step.read x e).1 := by
  have hslot := Call.slotAt_eq obj field e
  rw [variableOf?_eq_some.1 hx] at hslot
  have hread : Call.readField obj field e = (.ok (Step.read x e).1, (Step.read x e).2) :=
    Call.bind_of_ok hslot
  have hanswer : e.answer (.read obj field)
      = (.ok (.value (Step.read x e).1), (Step.read x e).2) := Call.bind_of_ok hread
  rw [reported?, hanswer]

theorem reported?_of_plain {obj : ObjectId} {field : String} {v : Value}
    (hslot : e.slot? obj field = .ok (.plain v)) : e.reported? obj field = some v := by
  have hlookup := Call.slotAt_eq obj field e
  rw [hslot] at hlookup
  have hread : Call.readField obj field e = (.ok v, e) := Call.bind_of_ok hlookup
  have hanswer : e.answer (.read obj field) = (.ok (.value v), e) := Call.bind_of_ok hread
  rw [reported?, hanswer]

theorem reported?_of_error {obj : ObjectId} {field : String} {err : EngineError}
    (hslot : e.slot? obj field = .error err) : e.reported? obj field = none := by
  have hlookup := Call.slotAt_eq obj field e
  rw [hslot] at hlookup
  have hread : Call.readField obj field e = (.error (.failed err), e) := Call.bind_of_error hlookup
  have hanswer : e.answer (.read obj field) = (.error (.failed err), e) := Call.bind_of_error hread
  rw [reported?, hanswer]

/-- A field reports the same if its slot is the same and its variable reads the same. -/
theorem reported?_eq_of_slot {obj : ObjectId} {field : String}
    (slot : e'.slot? obj field = e.slot? obj field) (hcurrent : e.Current) (hcurrent' : e'.Current)
    (hvalue : ∀ x, e'.variableOf? obj field = some x → e'.value x = e.value x) :
    e'.reported? obj field = e.reported? obj field := by
  cases hslot : e.slot? obj field with
  | error err => rw [reported?_of_error hslot, reported?_of_error (slot.trans hslot)]
  | ok content =>
    cases content with
    | plain v => rw [reported?_of_plain hslot, reported?_of_plain (slot.trans hslot)]
    | intercepted x =>
      have hx' := variableOf?_eq_some.2 (slot.trans hslot)
      rw [reported?_of_intercepted (variableOf?_eq_some.2 hslot), reported?_of_intercepted hx',
        (Step.read_of_current hcurrent x).1, (Step.read_of_current hcurrent' x).1, hvalue x hx']

/-- **A field that a solver defines** reports the solver's own value. -/
theorem reported?_of_definedAs? {obj : ObjectId} {field : String} {s : SolverId} {h : ExtVar}
    {solver : Solver} (hd : e.definedAs? obj field = some (s, h))
    (hsolver : e.solvers.get? s = some solver) : e.reported? obj field = some (e.valueIn s h) := by
  obtain ⟨x, hx, hdefined⟩ := Option.bind_eq_some_iff.1 hd
  obtain ⟨⟨s', owner, h'⟩, hdefining, heq⟩ := Option.map_eq_some_iff.1 hdefined
  cases heq
  rw [reported?_of_intercepted hx, Step.read_of_defining hdefining hsolver, valueIn_eq hsolver]

/-! ### Runs -/

/-- The engine after several requests. -/
def run (e : Engine) (requests : List Request) : Engine :=
  requests.foldl (fun e request ↦ (e.answer request).2) e

/-- A call was not interrupted. -/
def returned {α : Type} : Except Halt α → Bool
  | .error .tooDeep => false
  | _ => true

theorem ne_tooDeep_of_returned {α : Type} {result : Except Halt α}
    (h : returned result = true) : result ≠ .error .tooDeep := by
  rintro rfl
  cases h

/-- No request of a run is interrupted. -/
def returnsAll (e : Engine) : List Request → Bool
  | [] => true
  | request :: rest =>
    match e.answer request with
    | (.error .tooDeep, _) => false
    | (_, e) => e.returnsAll rest

/-- What each request of a run keeps, if it is not interrupted, the run keeps. -/
theorem run_induction {P : Engine → Prop} (hstep : ∀ e, P e → ∀ request ∈ requests,
      (e.answer request).1 ≠ .error .tooDeep → P (e.answer request).2)
    (he : P e) (hreturns : e.returnsAll requests = true) : P (e.run requests) := by
  induction requests generalizing e with
  | nil => exact he
  | cons request rest ih =>
    unfold returnsAll at hreturns
    rcases hrun : e.answer request with ⟨outcome, e'⟩
    have hrest : outcome ≠ .error .tooDeep ∧ e'.returnsAll rest = true := by
      rw [hrun] at hreturns
      split at hreturns
      · cases hreturns
      · next hne heq =>
        cases heq
        exact ⟨hne, hreturns⟩
    have hfirst : P e' := by
      have hanswer := hstep e he request List.mem_cons_self (by rw [hrun]; exact hrest.1)
      rwa [hrun] at hanswer
    have hlater := ih (fun e he r hr ↦ hstep e he r (List.mem_cons_of_mem _ hr)) hfirst hrest.2
    rwa [Engine.run, List.foldl_cons, hrun]

/-- **A run** of requests leads from a driven engine to a driven one. -/
theorem Driven.run (h : Driven config e) (hreturns : e.returnsAll requests = true) :
    Driven config (e.run requests) := by
  refine run_induction (fun e he request _ hne ↦ ?_) h hreturns
  rw [answer_eq_perform] at hne ⊢
  exact he.answer hne

/-- **A run** of requests leads from a reachable engine to a reachable one. -/
theorem Reachable.run (h : Reachable config e) (ha : Admissible requests)
    (hreturns : e.returnsAll requests = true) : Reachable config (e.run requests) := by
  refine run_induction (fun e he request hr hne ↦ ?_) h hreturns
  rw [answer_eq_perform] at hne ⊢
  exact he.answer (fun _ _ ↦ Reaction.admissible_ofList) (ha request hr) hne

end Engine

end LiveConstraints

import LiveConstraints.Engine.Editing
import LiveConstraints.Engine.Fields
import LiveConstraints.Engine.Maintenance
import LiveConstraints.Engine.View
/-!
# Answering requests

`Call.perform` answers one request, given the ways back into the engine. `Reentry.ofDepth` ties the
knot: the ways back of depth `n + 1` are the engine itself with the ways back of depth `n`, and at
depth zero every way back is interrupted. `Engine.answer` starts at `nestingLimit`, which no finite
chain of hooks, handlers and propagations that a program means to write comes near.
-/

namespace LiveConstraints

namespace Call

/-- Works on an open edit session. -/
def withSession (session : Option Nat) (f : EditSession → Call Answer) : Call Answer := do
  match (← get).session? session with
  | some s => f s
  | none => return .noSession

/-- Answers a request. -/
def perform (r : Reentry) : Request → Call Answer
  | .createObject fields => return .object (← createObject fields)
  | .read obj field => return .value (← readField obj field)
  | .write obj field v => return .value (← writeField r obj field v)
  | .fieldNames obj => return .names (← fieldNames obj)
  | .isConstrained obj field => return .flag ((← get).variableOf? obj field).isSome
  | .always predicate options => return .constraint (← always r predicate options)
  | .once predicate options => return .constraint (← once r predicate options)
  | .stay predicate options => return .constraint (some (← stay r predicate options))
  | .enable id => do
    switchOn r id
    return .done
  | .disable id => do
    Step.disable id
    return .done
  | .setPriority id priority => do
    setPriority r id priority
    return .done
  | .setInterval id interval => do
    setInterval id interval
    return .done
  | .reevaluate id => do
    reselect r id
    return .done
  | .listConstraints => return .constraints (← get).constraints.ids
  | .describe id => return .description (← constraintAt id)
  | .unconstrain obj field => do
    unconstrain obj field
    return .done
  | .unconstrainAll obj => do
    unconstrainAll obj
    return .done
  | .setReadonly obj field on => do
    setReadonly obj field on
    return .done
  | .defining obj field => return .defining (← definingOf obj field)
  | .onWrite obj field actions => do
    onWrite obj field actions
    return .done
  | .openEdit obj fields => return .session (← openEdit obj fields)
  | .updateEdit session values =>
    withSession session fun s => do
      updateEdit r s values
      return .done
  | .finishEdit session => do
    let index := (← get).sessionIndex session
    withSession session fun s => do
      modify fun e => { e with sessions := e.sessions.setIfInBounds index none }
      finishEdit s
      return .done
  | .addSolver solver registerOnly => do
    let e ← get
    let (id, e) := if registerOnly then e.registerSolver solver else e.addSolver solver
    set e
    return .solver (some id)
  | .setDefaultSolvers solvers => do
    modify fun e => { e with defaultSolvers := solvers }
    return .solvers solvers
  | .setDefaultSolver solver => do
    modify fun e => { e with defaultSolver := solver }
    return .done
  | .setWeight s weight => do
    setWeight s weight
    return .done
  | .solverByName name =>
    return .solver (((← get).solvers.live.find? fun (_, s) => s.name == name).map Prod.fst)
  | .stats s => return .stats (← solverAt s).stats
  | .capabilities s => return .capabilities (← solverAt s).capabilities
  | .inspect predicate context => return .inspection (← inspect context predicate)
  | .dump => return .dump (← Step.dump)

/-- Makes the requests of a hook or handler, one after another. A failed request is recorded, and
the next one is made all the same. -/
def act (r : Reentry) (requests : List Request) : Call Unit :=
  requests.forM fun request => do
    let outcome ← attempt (perform r request)
    Step.record (.made request outcome)

end Call

namespace Reentry

/-- The ways back into the engine when nothing more may be nested. -/
def exhausted : Reentry where
  patience := 0
  suggest _ _ _ _ := throw .tooDeep
  recalculate _ := throw .tooDeep
  act _ := throw .tooDeep

/-- The ways back into the engine when `n` more calls may be nested. -/
def ofDepth : Nat → Reentry
  | 0 => exhausted
  | n + 1 => {
    patience := n + 1
    suggest := fun x v origin force => Call.suggest (ofDepth n) x v origin force
    recalculate := fun id => Call.recalculate (ofDepth n) id
    act := fun requests => Call.act (ofDepth n) requests }

end Reentry

namespace Engine

/-- How deeply calls may be nested. -/
def nestingLimit : Nat := 100000

/-- Answers a request. The failure of a request does not undo what it did. -/
def answer (e : Engine) (request : Request) : Except Halt Answer × Engine :=
  Call.perform (Reentry.ofDepth nestingLimit) request e

end Engine

end LiveConstraints

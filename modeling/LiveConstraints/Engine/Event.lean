import LiveConstraints.Engine.Error
/-!
# Events

What the engine reports while it works, apart from answers: selections and changes of solvers,
solves, and trouble that a call survives. An event is shown as named texts; the texts that are shown
as values lose double quotes at their ends.
-/

namespace LiveConstraints

/-- How important an event is. -/
inductive Level where
  /-- Detail. -/
  | debug
  /-- Normal operation. -/
  | info
  /-- Trouble that was survived. -/
  | warn
  deriving DecidableEq, Repr

/-- The name of a level. -/
def Level.render : Level → String
  | .debug => "DEBUG"
  | .info => "INFO"
  | .warn => "WARN"

/-- When a solve took place. -/
inductive SolvePhase where
  /-- While a constraint was switched on. -/
  | enable
  /-- While a field was written. -/
  | write
  deriving DecidableEq, Repr

/-- The name of a phase. -/
def SolvePhase.render : SolvePhase → String
  | .enable => "enable"
  | .write => "write"

/-- A report of the engine. -/
inductive Event where
  /-- A solver won the comparison of candidates. -/
  | solverSelected (solver : String) (candidates measured : Nat)
  /-- A solver was rejected for what it declares. -/
  | solverRejected (solver : String) (feature : Feature)
  /-- A constraint moved to another solver. -/
  | solverSwitched (id : ConstraintId) (source target : String)
  /-- The solver of a constraint is selected anew. -/
  | reevaluation (id : ConstraintId) (solver : String)
  /-- A solver solved. -/
  | solveTiming (solver : String) (phase : SolvePhase)
  /-- A failed write could not put the prior value back. -/
  | restoreFailed (field : String) (e : EngineError)
  /-- A stay could not be attached. -/
  | stayFailed (field : String) (e : SolverError)
  /-- A stay was skipped because the solver has no variable for the field. -/
  | staySkipped (field : String) (solver : String)
  /-- A hook was skipped because its field could not be read. -/
  | hookSkipped (receiver : ObjectId) (field : String) (e : EngineError)

namespace Event

/-- The level of an event. -/
def level : Event → Level
  | .solverSelected .. | .solverRejected .. | .solverSwitched .. => .info
  | .reevaluation .. | .solveTiming .. => .debug
  | .restoreFailed .. | .stayFailed .. | .staySkipped .. | .hookSkipped .. => .warn

/-- The named texts of an event. -/
def fields : Event → List (String × String)
  | .solverSelected solver candidates measured =>
    [("event", "solver_selected"), ("solver", Text.trimQuotes solver),
     ("candidates", toString candidates), ("measured", toString measured)]
  | .solverRejected solver feature =>
    [("event", "solver_rejected"), ("solver", solver), ("reason", feature.render)]
  | .solverSwitched id source target =>
    [("event", "solver_switched"), ("constraint", id.render), ("from", Text.trimQuotes source),
     ("to", Text.trimQuotes target)]
  | .reevaluation id solver =>
    [("event", "reevaluation"), ("constraint", id.render), ("solver", Text.trimQuotes solver)]
  | .solveTiming solver phase =>
    [("event", "solve_timing"), ("solver", Text.trimQuotes solver), ("during", phase.render)]
  | .restoreFailed field e =>
    [("field", Text.trimQuotes field), ("error", Text.trimQuotes e.message),
     ("message", "could not restore prior value")]
  | .stayFailed field e =>
    [("field", Text.trimQuotes field), ("error", Text.trimQuotes e.message),
     ("message", "could not attach stay")]
  | .staySkipped field solver =>
    [("field", Text.trimQuotes field), ("solver", Text.trimQuotes solver),
     ("message", "stay skipped: solver declined the field")]
  | .hookSkipped receiver field e =>
    [("receiver", receiver.render), ("field", Text.trimQuotes field),
     ("error", Text.trimQuotes e.message), ("message", "skipped setter hook")]

end Event

end LiveConstraints

import LiveConstraints.Console.Style
import LiveConstraints.Decimal.Text
/-!
# Notices

One line on the console for each event that is worth one. A notice holds what an event may carry; a
part that is missing is shown by a stand-in. The line begins with the time since the console was set
up, which is zero as long as it was not.
-/

namespace LiveConstraints.Console

/-- What an event tells the console. -/
structure Notice where
  /-- The name of the event. -/
  event : Option String := none
  /-- The solver it is about. -/
  solver : Option String := none
  /-- Why a solver was rejected. -/
  reason : Option String := none
  /-- The constraint it is about. -/
  constraint : Option String := none
  /-- The solver that a constraint leaves. -/
  source : Option String := none
  /-- The solver that a constraint moves to. -/
  target : Option String := none
  /-- When a solve took place. -/
  during : Option String := none
  /-- How many candidates there were. -/
  candidates : Option Nat := none
  /-- How many of them could be measured. -/
  measured : Option Nat := none
  /-- How many milliseconds a solve took. -/
  elapsed : Option Float := none

/-- A duration given in milliseconds, in the unit that suits it. -/
def renderDuration (ms : Float) : String :=
  if ms < 1.0 then Decimal.renderFixed 0 (ms * 1000.0) ++ "µs"
  else if ms < 1000.0 then Decimal.renderFixed 2 ms ++ "ms"
  else Decimal.renderFixed 2 (ms / 1000.0) ++ "s"

namespace Notice

/-- The time at the beginning of a line. -/
def clock : String := colored .brightBlack "  0.000s"

/-- The solver's name. -/
def solverName (n : Notice) : String := n.solver.getD "?"

/-- A solver was selected. -/
def selected (n : Notice) : String :=
  let candidates := n.candidates.getD 0
  let measured := n.measured.getD candidates
  clock ++ " " ++ bold (colored .brightGreen "✓") ++ " Selected "
    ++ bold (colored .brightCyan n.solverName) ++ " │ "
    ++ colored .brightYellow (toString measured) ++ " of "
    ++ colored .brightYellow (toString candidates) ++ " candidates measured"

/-- A solver was rejected. -/
def rejected (n : Notice) : String :=
  clock ++ " " ++ colored .brightRed "✗" ++ " Rejected " ++ bold (colored .white n.solverName)
    ++ " │ no support for " ++ colored .yellow (n.reason.getD "the predicate")

/-- A constraint moved to another solver. -/
def switched (n : Notice) : String :=
  clock ++ " " ++ bold (colored .brightMagenta "⇄") ++ " "
    ++ colored .white (n.constraint.getD "constraint") ++ " moved │ "
    ++ colored .brightBlack (n.source.getD "?") ++ " → "
    ++ bold (colored .brightCyan (n.target.getD "?"))

/-- A solver is selected anew. -/
def reevaluating (n : Notice) : String :=
  clock ++ " " ++ colored .brightBlue "↻" ++ " Re-evaluating "
    ++ colored .white (n.constraint.getD "constraint") ++ " │ currently "
    ++ colored .brightCyan n.solverName

/-- A solver solved. -/
def timed (n : Notice) : String :=
  clock ++ " " ++ colored .brightBlue "⏱" ++ " " ++ colored .brightCyan n.solverName ++ " "
    ++ colored .white (n.during.getD "solve") ++ " │ "
    ++ colored .yellow (renderDuration (n.elapsed.getD 0.0))

/-- The text of a notice; most events are not worth one. -/
def render? (n : Notice) : Option String :=
  match n.event with
  | some "solver_selected" => some n.selected
  | some "solver_rejected" => some n.rejected
  | some "solver_switched" => some n.switched
  | some "reevaluation" => some n.reevaluating
  | some "solve_timing" => some n.timed
  | _ => none

/-- A line without the carriage return that may be part of its end. -/
def dropReturn (line : String) : String :=
  let cs := line.toList
  if cs.getLast? == some '\r' then String.ofList cs.dropLast else line

/-- The lines on the console for notices in order. A name may bring line ends of its own: newlines,
alone or behind a carriage return. -/
def lines (notices : List Notice) : List String :=
  (notices.filterMap render?).flatMap fun text => (text.splitOn "\n").map dropReturn

end Notice

end LiveConstraints.Console

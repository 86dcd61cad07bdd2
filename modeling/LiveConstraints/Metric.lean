/-!
# Metrics

What candidate realizations of a constraint are ranked by. Less is better for each of them.
-/

namespace LiveConstraints

/-- A measurement taken when a constraint is enabled. -/
inductive Metric where
  /-- The time spent solving, in milliseconds. -/
  | time
  /-- How many variables changed their value. -/
  | changedVariables
  /-- The sum of the squared changes of numbers. -/
  | squaredDistance
  deriving DecidableEq, Repr, Inhabited

namespace Metric

/-- All metrics. -/
def all : List Metric := [.time, .changedVariables, .squaredDistance]

/-- The name of a metric. -/
def render : Metric → String
  | .time => "time"
  | .changedVariables => "number_of_changed_variables"
  | .squaredDistance => "squared_change_distance"

/-- The metric with a given name. -/
def ofString? (s : String) : Option Metric := all.find? fun m => m.render == s

/-- The order used where none is asked for. -/
def defaultOrder : List Metric := [.time, .changedVariables]

end Metric

end LiveConstraints

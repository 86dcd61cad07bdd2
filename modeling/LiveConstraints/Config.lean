import LiveConstraints.Decimal.Text
import LiveConstraints.Metric
/-!
# Configuration

The defaults of an engine and the limits of its solvers. What a request leaves open is taken from
here. `Config.validate` refuses the settings that no type rules out, the first fault in a fixed
order.
-/

namespace LiveConstraints

/-- Limits of the relaxation solver. -/
structure RelaxationLimits where
  /-- Sweeps before giving up. -/
  maxSweeps : Nat := 1000
  /-- The largest residual that counts as satisfied. -/
  tolerance : Float := 1e-9

/-- Limits of the domain search solver. -/
structure SearchLimits where
  /-- Candidate values tried before giving up. -/
  maxNodes : Nat := 100000

/-- The defaults of an engine. -/
structure Config where
  /-- How many initiating writes on a constraint lie between two selections of its solver. -/
  reevaluationInterval : Nat := 1000
  /-- The metrics that candidates are ranked by, the first one first. -/
  optimizationPriority : List Metric := Metric.defaultOrder
  /-- What is added to a defining solver's weight while a write is under way. -/
  weightBump : Float := 987654321.0
  /-- Whether every solve is reported. -/
  logTimings : Bool := false
  /-- Whether every rejected solver is reported. -/
  logReasons : Bool := false
  /-- Limits of the relaxation solver. -/
  relaxation : RelaxationLimits := {}
  /-- Limits of the domain search solver. -/
  search : SearchLimits := {}

/-- A setting that is out of range. -/
inductive ConfigFault where
  /-- Selections cannot be no writes apart. -/
  | zeroInterval
  /-- Candidates cannot be ranked by nothing. -/
  | noMetric
  /-- The bump is not a positive finite number. -/
  | weightBump (x : Float)
  /-- The tolerance is not positive. -/
  | tolerance (x : Float)

/-- The wording of a fault. -/
def ConfigFault.message : ConfigFault → String
  | .zeroInterval => "Invalid configuration: reevaluation_interval must be at least 1"
  | .noMetric => "Invalid configuration: optimization_priority must name at least one metric"
  | .weightBump x =>
    "Invalid configuration: weight_bump must be a positive number, got " ++ Decimal.render x
  | .tolerance x =>
    "Invalid configuration: relax.tolerance must be positive, got " ++ Decimal.render x

/-- Checks the settings and reports the first fault. -/
def Config.validate (c : Config) : Except ConfigFault Config :=
  if c.reevaluationInterval = 0 then .error .zeroInterval
  else if c.optimizationPriority.isEmpty then .error .noMetric
  else if !(c.weightBump.isFinite && 0.0 < c.weightBump) then .error (.weightBump c.weightBump)
  else if c.relaxation.tolerance.isNaN || c.relaxation.tolerance ≤ 0.0 then
    .error (.tolerance c.relaxation.tolerance)
  else .ok c

end LiveConstraints

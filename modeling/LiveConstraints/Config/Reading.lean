import LiveConstraints.Config
/-!
# Reading a configuration from a document

The settings by name, apart from the format they are written in. A `Format` says how one format's
values are taken for tables, lists, numbers, booleans and names; the reader here knows the settings,
their ranges and their defaults. Settings without a name here are ignored, and none of the others
may be given twice.
-/

namespace LiveConstraints.Config

/-- How values of one document format are taken. -/
structure Format (ν : Type) where
  /-- The entries of a table. A list counts as a table whose names are the given ones, in order,
  where the format allows that. -/
  fields? : List String → ν → Option (List (String × ν))
  /-- The items of a list. -/
  items? : ν → Option (List ν)
  /-- A natural number. -/
  natural? : ν → Option Nat
  /-- A number. -/
  number? : ν → Option Float
  /-- A boolean. -/
  flag? : ν → Option Bool
  /-- A name. -/
  word? : ν → Option String

namespace Format

variable {ν : Type}

/-- A natural number below a limit. -/
def below? (f : Format ν) (limit : Nat) (v : ν) : Option Nat := (f.natural? v).filter (· < limit)

/-- A natural number of 32 bits. -/
def natural32? (f : Format ν) : ν → Option Nat := f.below? 4294967296

/-- A natural number of 64 bits. -/
def natural64? (f : Format ν) : ν → Option Nat := f.below? 18446744073709551616

/-- A metric. -/
def metric? (f : Format ν) (v : ν) : Option Metric := (f.word? v).bind Metric.ofString?

/-- A list of metrics. -/
def metrics? (f : Format ν) (v : ν) : Option (List Metric) := do (← f.items? v).mapM f.metric?

end Format

/-- The setting of a name among the entries of a table: the default when it is not given. -/
def setting? {ν α : Type} (entries : List (String × ν)) (name : String) (read : ν → Option α)
    (default : α) : Option α :=
  match entries.filter fun e => e.1 == name with
  | [] => some default
  | [(_, v)] => read v
  | _ => none

/-- The limits of the relaxation solver. -/
def readRelaxation? {ν : Type} (f : Format ν) (v : ν) : Option RelaxationLimits := do
  let entries ← f.fields? ["max_iterations", "tolerance"] v
  let base : RelaxationLimits := {}
  let maxSweeps ← setting? entries "max_iterations" f.natural32? base.maxSweeps
  let tolerance ← setting? entries "tolerance" f.number? base.tolerance
  return { maxSweeps, tolerance }

/-- The limits of the domain search solver. -/
def readSearch? {ν : Type} (f : Format ν) (v : ν) : Option SearchLimits := do
  let entries ← f.fields? ["max_nodes"] v
  let base : SearchLimits := {}
  let maxNodes ← setting? entries "max_nodes" f.natural64? base.maxNodes
  return { maxNodes }

/-- The names of the settings. -/
def settingNames : List String :=
  ["reevaluation_interval", "optimization_priority", "weight_bump", "log_timings", "log_reasons",
    "relax", "domain"]

/-- The configuration that a document describes, not yet validated. -/
def read? {ν : Type} (f : Format ν) (document : ν) : Option Config := do
  let entries ← f.fields? settingNames document
  let base : Config := {}
  let reevaluationInterval ←
    setting? entries "reevaluation_interval" f.natural32? base.reevaluationInterval
  let optimizationPriority ←
    setting? entries "optimization_priority" f.metrics? base.optimizationPriority
  let weightBump ← setting? entries "weight_bump" f.number? base.weightBump
  let logTimings ← setting? entries "log_timings" f.flag? base.logTimings
  let logReasons ← setting? entries "log_reasons" f.flag? base.logReasons
  let relaxation ← setting? entries "relax" (readRelaxation? f) base.relaxation
  let search ← setting? entries "domain" (readSearch? f) base.search
  return { reevaluationInterval, optimizationPriority, weightBump, logTimings, logReasons,
           relaxation, search }

/-- Why there is no configuration. -/
inductive LoadError where
  /-- There is no text to read. -/
  | unreadable
  /-- The text is malformed, or a setting has the wrong type. -/
  | malformed
  /-- A setting is out of range. -/
  | invalid (fault : ConfigFault)

/-- The configuration of a text, if there is a text, by a reader of its format. -/
def load (read : String → Option Config) (text : Option String) : Except LoadError Config :=
  match text with
  | none => .error .unreadable
  | some s =>
    match read s with
    | none => .error .malformed
    | some c => c.validate.mapError .invalid

end LiveConstraints.Config

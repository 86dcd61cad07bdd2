import LiveConstraints.LinearForm
import LiveConstraints.Solver.Capabilities
import LiveConstraints.Solver.Model
/-!
# Dataflow planning

A numeric solver for linear equations. Each equation is satisfied by computing exactly one of its
variables, the *output*, from the others. A variable is *determined* once its value may not change
any more in the run: suggested, edited and read-only variables from the start, required `keeps`
targets when they are set, outputs when they are computed.

The planner passes over the pending equations. An equation without undetermined variables is
checked, one with a single undetermined variable computes it, and the others stay pending. When a
pass gets nowhere the first pending equation gives up all but one of its undetermined variables, so
that the next pass computes the remaining one. Two passes per equation are therefore enough, which
is the number `propagate` allows.
-/

namespace LiveConstraints

/-- A dataflow solver. -/
structure Dataflow where
  /-- The variables and clauses. -/
  model : Model (List LinearForm) Float := {}
  /-- The variables of the open edit session, if one is open. -/
  editing : Option (List ExtVar) := none

namespace Dataflow

/-- The name by which the algorithm speaks of itself. -/
def algorithmName : String := "dataflow"

/-- The weight a dataflow solver starts with. -/
def initialWeight : Float := 200.0

/-- What the solver declares. -/
def capabilities : Capabilities :=
  { methods := true, softConstraints := true, edit := true, types := [.number] }

/-- The operators that may be applied to the solver's variables. -/
def supports : Operator → Bool
  | .add | .sub | .mul | .div | .neg | .eq | .and => true
  | _ => false

/-- The largest residual of a checked equation. -/
def tolerance : Float := 1e-9

/-! ### Planning -/

/-- A plan in progress. -/
structure Plan where
  /-- The variables with the values computed so far. -/
  slots : Slots
  /-- The variables whose values are final. -/
  determined : List ExtVar
  /-- The equations still to be satisfied. -/
  pending : List LinearForm

/-- Marks a variable as determined. -/
def Plan.determine (plan : Plan) (x : ExtVar) : Plan :=
  if plan.determined.contains x then plan
  else { plan with determined := plan.determined ++ [x] }

/-- The undetermined variables of an equation. -/
def Plan.undetermined (plan : Plan) (form : LinearForm) : List ExtVar :=
  form.vars.filter fun x => !plan.determined.contains x

/-- The value an equation leaves to one of its variables. -/
def solveFor (s : Slots) (form : LinearForm) (x : ExtVar) : Float :=
  let rest := form.evaluate (fun y => if y == x then 0.0 else s.number y)
  Float.neg rest / (form.coefficients.find? x).getD 0.0

/-- Treats one equation: checks it, computes its output, or keeps it pending. -/
def visit (plan : Plan) (form : LinearForm) : Except SolverError Plan :=
  match plan.undetermined form with
  | [] =>
    let residual := form.evaluate plan.slots.number
    if tolerance < residual.abs then .error (.unsatisfiable (.equationViolated residual))
    else .ok plan
  | [output] => do
    let slots ← plan.slots.assign? output (.number (solveFor plan.slots form output))
    return { plan with slots }.determine output
  | _ => .ok { plan with pending := plan.pending ++ [form] }

/-- One pass over the pending equations, in order. -/
def pass (plan : Plan) : Except SolverError Plan :=
  plan.pending.foldlM visit { plan with pending := [] }

/-- How unwilling a variable is to become an output; a variable without a stay is most willing. -/
def stayRank (s : Slots) (x : ExtVar) : Nat :=
  (((s.get? x).bind Slot.stay).map Priority.rank).getD 0

/-- The most willing of several variables; of equally willing ones the last. -/
def chooseOutput (s : Slots) : List ExtVar → Option ExtVar
  | [] => none
  | x :: xs =>
    match chooseOutput s xs with
    | none => some x
    | some y => if stayRank s x < stayRank s y then some x else some y

/-- Gives up all undetermined variables of the first pending equation but its output. -/
def commit (plan : Plan) : Plan :=
  match plan.pending with
  | [] => plan
  | form :: _ =>
    let undetermined := plan.undetermined form
    let output := chooseOutput plan.slots undetermined
    undetermined.foldl (fun plan x => if some x == output then plan else plan.determine x) plan

/-- Passes over the pending equations until none is left, at most `n` times. -/
def passes : Nat → Plan → Except SolverError Plan
  | 0, plan => .ok plan
  | n + 1, plan =>
    if plan.pending.isEmpty then .ok plan
    else do
      let next ← pass plan
      passes n (if next.pending.length = plan.pending.length then commit next else next)

/-! ### Runs -/

/-- The enabled equations, in order. -/
def equations (d : Dataflow) : List LinearForm :=
  d.model.enabled.flatMap fun
    | (.relation forms, _) => forms
    | (.keeps _ _, _) => []

/-- The enabled `keeps` clauses, in order, with whether they are required. -/
def keepers (d : Dataflow) : List (ExtVar × Float × Bool) :=
  d.model.enabled.flatMap fun
    | (.relation _, _) => []
    | (.keeps x v, priority) => [(x, v, priority.isRequired)]

/-- Sets the target of a `keeps` clause. A target that may not move has to hold the value already if
the clause is required. -/
def startOne (fixed : List ExtVar) (plan : Plan) :
    ExtVar × Float × Bool → Except SolverError Plan
  | (x, v, required) =>
    if fixed.contains x || plan.slots.isReadonly x then
      if required && !(plan.slots.value x).near (.number v) then
        .error (.unsatisfiable (.cannotKeep x v))
      else .ok plan
    else do
      let slots ← plan.slots.assign? x (.number v)
      let plan := { plan with slots }
      return if required then plan.determine x else plan

/-- Marks the read-only variables of the equations as determined. -/
def determineReadonly (plan : Plan) : Plan :=
  (plan.pending.flatMap LinearForm.vars).foldl
    (fun plan x => if plan.slots.isReadonly x then plan.determine x else plan) plan

/-- The variables after a successful run from `s` in which some variables are held. -/
def propagate (d : Dataflow) (fixed : List ExtVar) (s : Slots) : Except SolverError Slots := do
  let equations := d.equations
  let plan ← d.keepers.foldlM (startOne fixed)
    { slots := s, determined := fixed, pending := equations }
  let plan ← passes (2 * equations.length) (determineReadonly plan)
  return plan.slots

/-- Runs from given variables; a failure leaves the solver's own variables as they are. -/
def runFrom (d : Dataflow) (fixed : List ExtVar) (s : Slots) : Except SolverError Unit × Dataflow :=
  let (result, model) := d.model.settle (d.propagate fixed s)
  (result, { d with model })

/-- Derives values for all enabled clauses. -/
def solve (d : Dataflow) : Except SolverError Unit × Dataflow :=
  let d := { d with model := d.model.countSolve }
  d.runFrom [] d.model.slots

/-- The number a value holds; other values cannot be suggested or kept. -/
def number? (v : Value) : Except SolverError Float :=
  match v.asNumber? with
  | some x => .ok x
  | none => .error (.unsupported (.numbersOnly algorithmName v))

/-- Adopts a value for one variable. A value the variable holds already costs nothing; any other
builds one temporary edit constraint. -/
def suggest (d : Dataflow) (x : ExtVar) (v : Value) : Except SolverError Unit × Dataflow :=
  match number? v with
  | .error e => (.error e, d)
  | .ok number =>
    match d.model.slots.get? x with
    | none => (.error (.unknownVariable x), d)
    | some slot =>
      if slot.value.near v then (.ok (), d)
      else
        let d := { d with model := d.model.countConstruction.countSolve }
        d.runFrom [x] (d.model.slots.assign x (.number number))

/-- Adds a variable for a number; other values are declined. -/
def declare (d : Dataflow) (v : Value) : Option ExtVar × Dataflow :=
  match v with
  | .number _ =>
    let (x, model) := d.model.declare v
    (some x, { d with model })
  | _ => (none, d)

/-- The form of an equation; the other relations are refused. -/
def equation? (rel : LinearRelation) : Except SolverError LinearForm :=
  match rel.comparison with
  | .eq => .ok rel.form
  | _ => .error (.unsupported (.equalitiesOnly algorithmName))

/-- Compiles a conjunction of linear equations. -/
def compile (d : Dataflow) (t : Term) : Except SolverError Primitive × Dataflow :=
  match (do
    d.model.checkWritable t
    let rels ← (LinearRelation.ofTerm t).mapError SolverError.unsupported
    rels.mapM equation? : Except SolverError _) with
  | .error e => (.error e, d)
  | .ok forms =>
    let (p, model) := d.model.install (.relation forms)
    (.ok p, { d with model })

/-- Compiles the demand that a variable keeps a number. -/
def keep (d : Dataflow) (x : ExtVar) (v : Value) : Except SolverError Primitive × Dataflow :=
  if !d.model.slots.contains x then (.error (.unknownVariable x), d)
  else
    match number? v with
    | .error e => (.error e, d)
    | .ok number =>
      let (p, model) := d.model.install (.keeps x number)
      (.ok p, { d with model })

/-! ### Edit sessions -/

/-- Opens an edit session over variables that all exist; it replaces an open one. The session builds
one constraint, whatever the number of batches that follow. -/
def beginEdit (d : Dataflow) (xs : List ExtVar) : Except SolverError Unit × Dataflow :=
  match xs.find? fun x => !d.model.slots.contains x with
  | some x => (.error (.unknownVariable x), d)
  | none => (.ok (), { d with model := d.model.countConstruction, editing := some xs })

/-- Sets the edited variables to a batch of numbers. A variable removed meanwhile is passed over. -/
def assignBatch (s : Slots) (batch : List (ExtVar × Value)) : Except SolverError Slots :=
  batch.foldlM (fun s (x, v) => do
    let number ← number? v
    return s.assign x (.number number)) s

/-- Sets the variables of the open session, `solver` naming the solver in failures, and moves the
others around them. -/
def resolveBatch (d : Dataflow) (solver : String) (values : List Value) :
    Except SolverError Unit × Dataflow :=
  match d.editing with
  | none => (.error (.unsupported (.noOpenSession solver)), d)
  | some xs =>
    if xs.length ≠ values.length then
      (.error (.unsupported (.batchSize xs.length values.length)), d)
    else
      let d := { d with model := d.model.countSolve }
      match assignBatch d.model.slots (xs.zip values) with
      | .error e => (.error e, d)
      | .ok s => d.runFrom xs s

/-- Closes the edit session. -/
def endEdit (d : Dataflow) : Dataflow := { d with editing := none }

end Dataflow

end LiveConstraints

import LiveConstraints.LinearForm
import LiveConstraints.Solver.Capabilities
import LiveConstraints.Solver.Model
/-!
# Relaxation

A numeric solver for conjunctions of linear `==`, `<=` and `>=`. It sweeps over the enabled
relations and projects each violated one onto its boundary, until a whole sweep finds nothing
violated.

A projection moves only variables that are neither read-only nor pinned: a suggested variable and
the target of a required `keeps` clause are pinned. Among the movable variables of a relation those
without a stay are preferred; the others move only where there is no such variable.
-/

namespace LiveConstraints

/-- A relaxation solver. -/
structure Relaxation where
  /-- How many sweeps are made before giving up. -/
  maxSweeps : Nat
  /-- The largest residual that counts as satisfied. -/
  tolerance : Float
  /-- The variables and clauses. -/
  model : Model (List LinearRelation) Float := {}

namespace Relaxation

/-- The name by which the algorithm speaks of itself. -/
def algorithmName : String := "relax"

/-- The weight a relaxation solver starts with. -/
def initialWeight : Float := 100.0

/-- What the solver declares. -/
def capabilities : Capabilities := { types := [.number] }

/-- The operators that may be applied to the solver's variables. -/
def supports : Operator → Bool
  | .add | .sub | .mul | .div | .neg | .eq | .le | .ge | .and => true
  | _ => false

/-- The operator to use in place of a strict comparison. -/
def alternative? : Operator → Option Operator
  | .lt => some .le
  | .gt => some .ge
  | _ => none

/-- Squared coefficients that sum to less than this leave nothing to move. -/
def minDenominator : Float := 1e-12

/-- The variable holds exactly this value: the relation `x - value = 0`. -/
def keepsRelation (x : ExtVar) (value : Float) : LinearRelation :=
  ⟨(LinearForm.ofVariable x).plusConstant (-value), .eq⟩

/-- What one run works on. -/
structure Task where
  /-- The relations to satisfy, in order. -/
  active : List LinearRelation := []
  /-- The variables that no projection moves. -/
  pinned : List ExtVar := []
  /-- The values that variables are set to before the first sweep. -/
  starts : List (ExtVar × Float) := []

/-- Adds an enabled clause to the task. A required `keeps` clause pins its variable and is checked
as a relation; a weaker one only chooses where the variable starts. -/
def Task.addClause (task : Task) : Clause (List LinearRelation) Float × Priority → Task
  | (.relation rels, _) => { task with active := task.active ++ rels }
  | (.keeps x v, priority) =>
    let started := { task with starts := task.starts ++ [(x, v)] }
    if priority.isRequired then
      { started with
        pinned := started.pinned ++ [x]
        active := started.active ++ [keepsRelation x v] }
    else started

/-- The task of a run in which one variable may be held at its current value. -/
def task (r : Relaxation) (fixed : Option ExtVar) : Task :=
  r.model.enabled.foldl Task.addClause { pinned := fixed.toList }

/-- Sets the variables of `keeps` clauses to their values, but not the held and read-only ones. -/
def start (fixed : Option ExtVar) (starts : List (ExtVar × Float)) (s : Slots) :
    Except SolverError Slots :=
  starts.foldlM (fun s (x, v) =>
    if some x == fixed || s.isReadonly x then .ok s else s.assign? x (.number v)) s

/-- The terms of a relation whose variables a projection moves. -/
def movable (pinned : List ExtVar) (s : Slots) (f : LinearForm) : List (ExtVar × Float) :=
  let free := f.coefficients.entries.filter fun e => !pinned.contains e.1 && !s.isReadonly e.1
  let preferred := free.filter fun e => s.isFree e.1
  if preferred.isEmpty then free else preferred

/-- Moves variables by a multiple of their coefficients. -/
def move (terms : List (ExtVar × Float)) (step : Float) (s : Slots) : Except SolverError Slots :=
  terms.foldlM (fun s (x, c) => s.assign? x (.number (s.number x + c * step))) s

/-- Projects the variables onto a relation that is violated; `none` when the relation holds. -/
def repair? (tolerance : Float) (pinned : List ExtVar) (rel : LinearRelation) (s : Slots) :
    Except SolverError (Option Slots) :=
  match rel.violation? s.number tolerance with
  | none => .ok none
  | some residual => do
    let terms := movable pinned s rel.form
    let denominator := terms.foldl (fun sum e => sum + e.2 * e.2) (-0.0)
    if denominator < minDenominator then
      throw (.unsatisfiable (.noWritableVariable residual))
    let s ← move terms (-residual / denominator) s
    return some s

/-- One sweep over the relations. The flag tells whether each of them held when it was reached. -/
def sweep (tolerance : Float) (pinned : List ExtVar) (active : List LinearRelation) (s : Slots) :
    Except SolverError (Slots × Bool) :=
  active.foldlM (fun (s, settled) rel => do
    match ← repair? tolerance pinned rel s with
    | none => return (s, settled)
    | some s => return (s, false)) (s, true)

/-- Sweeps until one finds every relation satisfied, at most `n` times. -/
def sweeps (tolerance : Float) (pinned : List ExtVar) (active : List LinearRelation) :
    Nat → Slots → Except SolverError (Option Slots)
  | 0, _ => .ok none
  | n + 1, s => do
    let (s, settled) ← sweep tolerance pinned active s
    if settled then return some s else sweeps tolerance pinned active n s

/-- The variables after a successful run from `s`. -/
def run (r : Relaxation) (fixed : Option ExtVar) (s : Slots) : Except SolverError Slots := do
  let task := r.task fixed
  let s ← start fixed task.starts s
  match ← sweeps r.tolerance task.pinned task.active r.maxSweeps s with
  | some s => return s
  | none => throw (.unsatisfiable (.notConverged r.maxSweeps))

/-- Runs from given variables; a failure leaves the solver's own variables as they are. -/
def runFrom (r : Relaxation) (fixed : Option ExtVar) (s : Slots) :
    Except SolverError Unit × Relaxation :=
  let (result, model) := r.model.settle (r.run fixed s)
  (result, { r with model })

/-- Derives values for all enabled clauses. -/
def solve (r : Relaxation) : Except SolverError Unit × Relaxation :=
  let r := { r with model := r.model.countSolve }
  r.runFrom none r.model.slots

/-- The number a value holds; other values cannot be suggested or kept. -/
def number? (v : Value) : Except SolverError Float :=
  match v.asNumber? with
  | some x => .ok x
  | none => .error (.unsupported (.numbersOnly algorithmName v))

/-- Adopts a value for one variable and moves the others around it. -/
def suggest (r : Relaxation) (x : ExtVar) (v : Value) : Except SolverError Unit × Relaxation :=
  match number? v with
  | .error e => (.error e, r)
  | .ok number =>
    let r := { r with model := r.model.countSolve }
    match r.model.slots.assign? x (.number number) with
    | .error e => (.error e, r)
    | .ok s => r.runFrom (some x) s

/-- Adds a variable for a number; other values are declined. -/
def declare (r : Relaxation) (v : Value) : Option ExtVar × Relaxation :=
  match v with
  | .number _ =>
    let (x, model) := r.model.declare v
    (some x, { r with model })
  | _ => (none, r)

/-- Compiles a conjunction of linear relations. -/
def compile (r : Relaxation) (t : Term) : Except SolverError Primitive × Relaxation :=
  match (do
    r.model.checkWritable t
    (LinearRelation.ofTerm t).mapError SolverError.unsupported : Except SolverError _) with
  | .error e => (.error e, r)
  | .ok rels =>
    let (p, model) := r.model.install (.relation rels)
    (.ok p, { r with model })

/-- Compiles the demand that a variable keeps a number. -/
def keep (r : Relaxation) (x : ExtVar) (v : Value) : Except SolverError Primitive × Relaxation :=
  if !r.model.slots.contains x then (.error (.unknownVariable x), r)
  else
    match number? v with
    | .error e => (.error e, r)
    | .ok number =>
      let (p, model) := r.model.install (.keeps x number)
      (.ok p, { r with model })

end Relaxation

end LiveConstraints

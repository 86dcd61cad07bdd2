import LiveConstraints.Solver.Custom
import LiveConstraints.Solver.Dataflow
import LiveConstraints.Solver.DomainSearch
import LiveConstraints.Solver.Relaxation
import LiveConstraints.Solver.Stub
/-!
# Solvers

The contract that the engine relies on, over the algorithms of this library and over any other
(`Algorithm.custom`). A solver is a value: every call returns the solver it leaves behind, also when
it fails. The engine never looks inside. It declares one variable for each field that the solver
should see, hands over compiled predicates as terms, switches the resulting primitives on and off,
and asks the solver to solve.

Of any solver at all the contract only says that its name stays the same and that its weight is the
one it was given last. The reference algorithms leave their variables unchanged when a call fails.
`Algorithm.keepsRejected` is the exception on purpose: it adopts a suggested value and then rejects
it.
-/

namespace LiveConstraints

/-- The algorithms a solver can run. -/
inductive Algorithm where
  /-- Relaxation of linear relations. -/
  | relaxation (r : Relaxation)
  /-- Relaxation that adopts every suggestion it can and then reports failure. -/
  | keepsRejected (r : Relaxation)
  /-- Dataflow planning of linear equations. -/
  | dataflow (d : Dataflow)
  /-- Search in finite domains. -/
  | domainSearch (d : DomainSearch)
  /-- Declared capabilities only. -/
  | stub (s : Stub)
  /-- An algorithm from outside the library. -/
  | custom (c : Custom)

/-- A solver as it is registered. -/
structure Solver where
  /-- The name shown in logs and errors. -/
  name : String
  /-- The name the algorithm uses in the wording of its own failures. It differs from `name` when
  the solver is wrapped in another one. -/
  innerName : String
  /-- The weight that decides which of several solvers defines a field. -/
  weight : Float
  /-- The algorithm with its state. -/
  algorithm : Algorithm

namespace Solver

/-- A solver under one name. -/
def named (name : String) (weight : Float) (algorithm : Algorithm) : Solver :=
  { name, innerName := name, weight, algorithm }

/-- Wraps a solver under another name; all else is the wrapped solver's. -/
def wrapped (name : String) (inner : Solver) : Solver := { inner with name }

/-- A relaxation solver under its usual name and weight. -/
def relaxation (maxSweeps : Nat) (tolerance : Float) : Solver :=
  named Relaxation.algorithmName Relaxation.initialWeight (.relaxation { maxSweeps, tolerance })

/-- A dataflow solver under its usual name and weight. -/
def dataflow : Solver := named Dataflow.algorithmName Dataflow.initialWeight (.dataflow {})

/-- A domain search solver under its usual name and weight. -/
def domainSearch (maxNodes : Nat) : Solver :=
  named DomainSearch.algorithmName DomainSearch.initialWeight (.domainSearch { maxNodes })

/-! ### Declarations -/

/-- What the solver declares about itself. -/
def capabilities (s : Solver) : Capabilities :=
  match s.algorithm with
  | .relaxation _ | .keepsRejected _ => Relaxation.capabilities
  | .dataflow _ => Dataflow.capabilities
  | .domainSearch _ => DomainSearch.capabilities
  | .stub b => b.capabilities
  | .custom c => c.behaviour.capabilities c.history

/-- Whether an operator can be applied to the solver's variables. -/
def supportsOperation (s : Solver) (op : Operator) : Bool :=
  match s.algorithm with
  | .relaxation _ | .keepsRejected _ => Relaxation.supports op
  | .dataflow _ => Dataflow.supports op
  | .domainSearch _ | .stub _ => true
  | .custom c => c.behaviour.supports c.history op

/-- A supported operator to use in place of another. -/
def alternativeFor? (s : Solver) (op : Operator) : Option Operator :=
  match s.algorithm with
  | .relaxation _ | .keepsRejected _ => Relaxation.alternative? op
  | .custom c => c.behaviour.alternative? c.history op
  | _ => none

/-! ### The model inside -/

/-- Reads the model of a reference algorithm, the stub, or what is known of another algorithm. -/
def read {α : Type} (s : Solver) (model : {ρ υ : Type} → Model ρ υ → α) (stub : Stub → α)
    (custom : Custom → α) : α :=
  match s.algorithm with
  | .relaxation r => model r.model
  | .keepsRejected r => model r.model
  | .dataflow d => model d.model
  | .domainSearch d => model d.model
  | .stub b => stub b
  | .custom c => custom c

/-- Runs a call on the model of a reference algorithm, on the stub, or on another algorithm. -/
def call {α : Type} (s : Solver) (model : {ρ υ : Type} → Model ρ υ → α × Model ρ υ)
    (stub : Stub → α × Stub) (custom : Custom → α × Custom) : α × Solver :=
  match s.algorithm with
  | .relaxation r =>
    let (result, model) := model r.model
    (result, { s with algorithm := .relaxation { r with model } })
  | .keepsRejected r =>
    let (result, model) := model r.model
    (result, { s with algorithm := .keepsRejected { r with model } })
  | .dataflow d =>
    let (result, model) := model d.model
    (result, { s with algorithm := .dataflow { d with model } })
  | .domainSearch d =>
    let (result, model) := model d.model
    (result, { s with algorithm := .domainSearch { d with model } })
  | .stub b =>
    let (result, b) := stub b
    (result, { s with algorithm := .stub b })
  | .custom c =>
    let (result, c) := custom c
    (result, { s with algorithm := .custom c })

/-- Changes the model of a reference algorithm, or the stub; another algorithm is called. -/
def update (s : Solver) (model : {ρ υ : Type} → Model ρ υ → Model ρ υ) (stub : Stub → Stub)
    (call : SolverCall) : Solver :=
  (s.call (fun m => ((), model m)) (fun b => ((), stub b)) fun c => ((), c.after call)).2

/-! ### Reading -/

/-- The counters of the solver; a stub counts nothing. -/
def stats (s : Solver) : Stats :=
  s.read Model.stats (fun _ => {}) fun c => c.behaviour.stats c.history

/-- The value of a variable; the algorithms of this library have the absent value for an unknown
one. -/
def value (s : Solver) (x : ExtVar) : Value :=
  s.read (fun m => m.slots.value x) (fun b => b.value x) fun c => c.behaviour.value c.history x

/-- Whether a variable is read-only. -/
def isReadonly (s : Solver) (x : ExtVar) : Bool :=
  s.read (fun m => m.slots.isReadonly x) (fun b => b.isReadonly x)
    fun c => c.behaviour.isReadonly c.history x

/-- Whether an edit session is open. -/
def isEditing (s : Solver) : Bool :=
  match s.algorithm with
  | .dataflow d => d.editing.isSome
  | _ => false

/-- How often a stub was asked to compile. -/
def compileAttempts (s : Solver) : Nat :=
  match s.algorithm with
  | .stub b => b.compileAttempts
  | _ => 0

/-! ### Calls -/

/-- Puts the outcome of an algorithm's call back into the solver. -/
def answer {σ α : Type} (s : Solver) (wrap : σ → Algorithm) (outcome : α × σ) : α × Solver :=
  (outcome.1, { s with algorithm := wrap outcome.2 })

/-- Tries to represent the value of a field that is called `label` in logs. `none` means that the
solver declines it. -/
def declare (s : Solver) (v : Value) (label : String) : Option ExtVar × Solver :=
  match s.algorithm with
  | .relaxation r => s.answer .relaxation (r.declare v)
  | .keepsRejected r => s.answer .keepsRejected (r.declare v)
  | .dataflow d => s.answer .dataflow (d.declare v)
  | .domainSearch d => s.answer .domainSearch (d.declare v)
  | .stub b => s.answer .stub (b.declare v)
  | .custom c => s.answer .custom (c.declare v label)

/-- Forgets a variable. A stub remembers all of them. -/
def removeVariable (s : Solver) (x : ExtVar) : Solver :=
  s.update (fun m => { m with slots := m.slots.remove x }) id (.removeVariable x)

/-- Compiles a term into a primitive, switched off. -/
def compile (s : Solver) (t : Term) : Except SolverError Primitive × Solver :=
  match s.algorithm with
  | .relaxation r => s.answer .relaxation (r.compile t)
  | .keepsRejected r => s.answer .keepsRejected (r.compile t)
  | .dataflow d => s.answer .dataflow (d.compile t)
  | .domainSearch d => s.answer .domainSearch (d.compile t)
  | .stub b => s.answer .stub (b.compile s.innerName t)
  | .custom c => s.answer .custom (c.compile t)

/-- Compiles the demand that a variable keeps a value into a primitive, switched off. -/
def keep (s : Solver) (x : ExtVar) (v : Value) : Except SolverError Primitive × Solver :=
  match s.algorithm with
  | .relaxation r => s.answer .relaxation (r.keep x v)
  | .keepsRejected r => s.answer .keepsRejected (r.keep x v)
  | .dataflow d => s.answer .dataflow (d.keep x v)
  | .domainSearch d => s.answer .domainSearch (d.keep x v)
  | .stub b => s.answer .stub (b.keep x)
  | .custom c => s.answer .custom (c.keep x v)

/-- Switches a primitive on at a priority, or off. -/
def setEnabled (s : Solver) (p : Primitive) (priority : Option Priority) :
    Except SolverError Unit × Solver :=
  s.call (fun m => m.setEnabled p priority) (fun b => (.ok (), b))
    fun c => c.carryOut (.setEnabled p priority)

/-- Switches a primitive on at a priority. -/
def enable (s : Solver) (p : Primitive) (priority : Priority) : Except SolverError Unit × Solver :=
  s.setEnabled p (some priority)

/-- Switches a primitive off. -/
def disable (s : Solver) (p : Primitive) : Except SolverError Unit × Solver := s.setEnabled p none

/-- Drops a primitive for good. -/
def removePrimitive (s : Solver) (p : Primitive) : Solver :=
  s.update (fun m => { m with clauses := m.clauses.remove p }) id (.removePrimitive p)

/-- Derives values for all enabled primitives. -/
def solve (s : Solver) : Except SolverError Unit × Solver :=
  match s.algorithm with
  | .relaxation r => s.answer .relaxation r.solve
  | .keepsRejected r => s.answer .keepsRejected r.solve
  | .dataflow d => s.answer .dataflow d.solve
  | .domainSearch d => s.answer .domainSearch d.solve
  | .stub _ => (.ok (), s)
  | .custom c => s.answer .custom (c.carryOut .solve)

/-- Asks the solver to adopt a value and to solve around it. -/
def suggest (s : Solver) (x : ExtVar) (v : Value) : Except SolverError Unit × Solver :=
  match s.algorithm with
  | .relaxation r => s.answer .relaxation (r.suggest x v)
  | .keepsRejected r =>
    match r.suggest x v with
    | (.ok (), r) => s.answer .keepsRejected (.error (.unsatisfiable .valueKept), r)
    | failed => s.answer .keepsRejected failed
  | .dataflow d => s.answer .dataflow (d.suggest x v)
  | .domainSearch d => s.answer .domainSearch (d.suggest x v)
  | .stub b => s.answer .stub (b.suggest x v)
  | .custom c => s.answer .custom (c.carryOut (.suggest x v))

/-- Sets the read-only flag of a variable. -/
def setReadonly (s : Solver) (x : ExtVar) (on : Bool) : Solver :=
  s.update (fun m => m.setReadonly x on) (fun b => b.setReadonly x on) (.setReadonly x on)

/-- Attaches a preference for keeping the current value. -/
def stay (s : Solver) (x : ExtVar) (priority : Priority) : Except SolverError Unit × Solver :=
  s.call (fun m => m.setStay x priority) (fun b => (b.check x, b))
    fun c => c.carryOut (.stay x priority)

/-- Removes the preference for keeping the current value. -/
def removeStay (s : Solver) (x : ExtVar) : Solver :=
  s.update (fun m => m.removeStay x) id (.removeStay x)

/-- Prepares a variable for an edit session; the algorithms of this library need no preparation. -/
def prepareEdit (s : Solver) (x : ExtVar) : Solver :=
  s.update (fun m => m) id (.prepareEdit x)

/-- Opens an edit session. -/
def beginEdit (s : Solver) (xs : List ExtVar) : Except SolverError Unit × Solver :=
  match s.algorithm with
  | .dataflow d => s.answer .dataflow (d.beginEdit xs)
  | .custom c => s.answer .custom (c.carryOut (.beginEdit xs))
  | _ => (.error (.unsupported (.noEditSessions s.innerName)), s)

/-- Sets the variables of the open session, in its order, and solves around them. -/
def resolveBatch (s : Solver) (values : List Value) : Except SolverError Unit × Solver :=
  match s.algorithm with
  | .dataflow d => s.answer .dataflow (d.resolveBatch s.innerName values)
  | .custom c => s.answer .custom (c.carryOut (.resolveBatch values))
  | _ => (.error (.unsupported (.noEditSessions s.innerName)), s)

/-- Releases a variable after its edit session. -/
def releaseEdit (s : Solver) (x : ExtVar) : Solver :=
  s.update (fun m => m) id (.releaseEdit x)

/-- Closes the open session, if there is one. -/
def endEdit (s : Solver) : Except SolverError Unit × Solver :=
  match s.algorithm with
  | .dataflow d => (.ok (), { s with algorithm := .dataflow d.endEdit })
  | .custom c => s.answer .custom (c.carryOut .endEdit)
  | _ => (.ok (), s)

/-- Changes the weight. -/
def setWeight (s : Solver) (weight : Float) : Solver :=
  { s.update (fun m => m) id (.setWeight weight) with weight }

end Solver

end LiveConstraints

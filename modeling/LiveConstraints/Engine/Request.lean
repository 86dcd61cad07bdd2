import LiveConstraints.Expr
import LiveConstraints.Metric
import LiveConstraints.SortedMap
import LiveConstraints.Solver
/-!
# Requests

Everything an engine can be asked, as data. The reactions that a program registers, setter hooks and
error handlers, are lists of requests themselves: they run inside the engine, so whatever they may
do is something the engine can be asked.
-/

namespace LiveConstraints

/-- What to do with the failures of a constraint. -/
structure Handler (ρ : Type) where
  /-- A tag that tells handlers apart in the journal. -/
  tag : String
  /-- The requests it makes. -/
  actions : List ρ

/-- The options of a request for a constraint. What is left open is taken from the configuration. -/
structure Options (ρ : Type) where
  /-- The only solver to try. -/
  solver : Option SolverId := none
  /-- The names the predicate may use. -/
  context : SortedMap String Value := ∅
  /-- How strongly the constraint is held. -/
  priority : Option Priority := none
  /-- Whether a predicate that already holds is accepted as an assertion. -/
  allowTests : Bool := false
  /-- Whether operations that the solver cannot express are evaluated once instead of failing. -/
  allowUnsolvable : Bool := false
  /-- What to do with failures. -/
  onError : Option (Handler ρ) := none
  /-- Whether solves are reported. -/
  logTimings : Option Bool := none
  /-- Whether rejected solvers are reported. -/
  logReasons : Option Bool := none
  /-- How many initiating writes lie between two selections of the solver. -/
  interval : Option Nat := none
  /-- The metrics that candidates are ranked by. -/
  metrics : Option (List Metric) := none
  /-- Whether the winner is left switched off. -/
  postpone : Bool := false
  /-- Whether only solvers with one-way methods are eligible. -/
  methods : Bool := false

/-- A request to an engine. -/
inductive Request where
  /-- Allocates an object. -/
  | createObject (fields : List (String × Value))
  /-- Reads a field. -/
  | read (obj : ObjectId) (field : String)
  /-- Writes a field. -/
  | write (obj : ObjectId) (field : String) (v : Value)
  /-- Lists the fields of an object. -/
  | fieldNames (obj : ObjectId)
  /-- Asks whether a field is intercepted. -/
  | isConstrained (obj : ObjectId) (field : String)
  /-- Maintains a predicate from now on. -/
  | always (predicate : Expr) (options : Options Request)
  /-- Solves a predicate once. -/
  | once (predicate : Expr) (options : Options Request)
  /-- Attaches stays to the fields a predicate names. -/
  | stay (predicate : Expr) (options : Options Request)
  /-- Switches a constraint on. -/
  | enable (id : ConstraintId)
  /-- Switches a constraint off. -/
  | disable (id : ConstraintId)
  /-- Changes the priority of a constraint. -/
  | setPriority (id : ConstraintId) (priority : Priority)
  /-- Changes the interval of a constraint. -/
  | setInterval (id : ConstraintId) (interval : Nat)
  /-- Selects the solver of a constraint anew. -/
  | reevaluate (id : ConstraintId)
  /-- Lists the constraints. -/
  | listConstraints
  /-- Describes a constraint. -/
  | describe (id : ConstraintId)
  /-- Stops intercepting a field. -/
  | unconstrain (obj : ObjectId) (field : String)
  /-- Stops intercepting the fields of an object. -/
  | unconstrainAll (obj : ObjectId)
  /-- Pins or releases the solver variables of a field. -/
  | setReadonly (obj : ObjectId) (field : String) (on : Bool)
  /-- Asks which solver defines a field. -/
  | defining (obj : ObjectId) (field : String)
  /-- Registers a hook that runs after a write changed a field. -/
  | onWrite (obj : ObjectId) (field : String) (actions : List Request)
  /-- Opens an edit session. -/
  | openEdit (obj : ObjectId) (fields : List String)
  /-- Assigns a batch of values in an edit session, the last opened one unless told otherwise. -/
  | updateEdit (session : Option Nat) (values : List Value)
  /-- Closes an edit session, the last opened one unless told otherwise. -/
  | finishEdit (session : Option Nat)
  /-- Registers a solver, as a default candidate or not. -/
  | addSolver (solver : Solver) (registerOnly : Bool)
  /-- Replaces the list of default candidates. -/
  | setDefaultSolvers (solvers : List SolverId)
  /-- Names the one solver to use where a request names none, or no one. -/
  | setDefaultSolver (solver : Option SolverId)
  /-- Changes the weight of a solver. -/
  | setWeight (solver : SolverId) (weight : Float)
  /-- Looks a solver up by its name. -/
  | solverByName (name : String)
  /-- Asks for the counters of a solver. -/
  | stats (solver : SolverId)
  /-- Asks for the declarations of a solver. -/
  | capabilities (solver : SolverId)
  /-- Asks what a predicate touches. -/
  | inspect (predicate : Expr) (context : SortedMap String Value)
  /-- Describes variables, constraints and solvers. -/
  | dump

instance : Inhabited Request := ⟨.dump⟩

/-- A hook that runs after a write changed a field. -/
abbrev Hook := List Request

/-- The options of a constraint. -/
abbrev ConstraintOptions := Options Request

/-- What to do with the failures of a constraint. -/
abbrev ErrorHandler := Handler Request

end LiveConstraints

import LiveConstraints.Solver.Error
/-!
# What a request can fail with

The failures of the engine, each kept as its cause. Failures of a solver carry the name of the
solver; an unsatisfiable one has a constructor of its own, since it is what handlers are for.
`EngineError.message` is the only place that words them.
-/

namespace LiveConstraints

/-- What a candidate solver does not declare support for. -/
inductive Feature where
  /-- One-way formula methods. -/
  | methods
  /-- Priorities below required. -/
  | softConstraints
  /-- Restrictions to finite domains. -/
  | finiteDomains
  /-- Values of a type. -/
  | values (t : TypeTag)
  deriving DecidableEq, Repr

/-- The wording of a feature. -/
def Feature.render : Feature → String
  | .methods => "methods"
  | .softConstraints => "soft constraints"
  | .finiteDomains => "finite domains"
  | .values t => t.render ++ " values"

/-- Why a constraint could not be built for a solver. -/
inductive ConstructionFault where
  /-- The solver declares no support for a feature of the predicate. -/
  | noSupport (feature : Feature)
  /-- The predicate is true whatever the solver does. -/
  | alwaysTrue
  /-- The predicate is false whatever the solver does. -/
  | alwaysFalse
  /-- The predicate is an expression, not a relation. -/
  | notARelation (v : Value)
  /-- Nothing was compiled. -/
  | noPrimitives
  /-- The solver refused the compiled term. -/
  | refused (e : SolverError)

/-- The wording of a fault of construction. -/
def ConstructionFault.message : ConstructionFault → String
  | .noSupport feature => "no support for " ++ feature.render
  | .alwaysTrue =>
    "predicate already holds natively; allow tests to keep it as an assertion"
  | .alwaysFalse => "predicate is false and touches nothing the solver can change"
  | .notARelation v => "predicate evaluated to " ++ v.render ++ ", not to a relation"
  | .noPrimitives => "no primitive constraints were created"
  | .refused e => e.message

/-- Why a field cannot take part in an edit session. -/
inductive EditObstacle where
  /-- No constraint reaches it. -/
  | notConstrained
  /-- A solver declined it. -/
  | declined
  /-- No solver has a variable for it. -/
  | unbound
  /-- A solver that has a variable for it knows no edit sessions. -/
  | noSessions (solver : String)

/-- The wording of an obstacle. -/
def EditObstacle.message : EditObstacle → String
  | .notConstrained => "not constrained"
  | .declined => "a solver declined it; the relation needs recalculation"
  | .unbound => "no solver binds it"
  | .noSessions solver => solver ++ " has no edit sessions"

/-- A value or variable that is not what was asked for. -/
inductive Mismatch where
  /-- The variable was released. -/
  | released (x : VarId)
  /-- The field is not intercepted. -/
  | notConstrained (obj : ObjectId) (field : String)
  /-- The composite value has no such part. -/
  | noPart (v : Value) (part : String)
  /-- The value has no members. -/
  | noMember (name : String) (v : Value)
  /-- An edit session is given the wrong number of values. -/
  | batchSize (fields values : Nat)

/-- The wording of a mismatch. -/
def Mismatch.message : Mismatch → String
  | .released x => x.render ++ " is no longer constrained"
  | .notConstrained obj field => obj.render ++ "." ++ field ++ " is not constrained"
  | .noPart v part => v.render ++ " has no part " ++ backquoted part
  | .noMember name v => "cannot read " ++ backquoted name ++ " from " ++ v.render
  | .batchSize fields values =>
    "edit session over " ++ toString fields ++ " fields got " ++ toString values ++ " values"

/-- A failed request. -/
inductive EngineError where
  /-- A constraint could not be built for a solver. -/
  | construction (solver : String) (fault : ConstructionFault)
  /-- A solver found no assignment. -/
  | unsatisfiable (solver : String) (why : Conflict)
  /-- An operator was applied to a solver's variable that the solver cannot express. -/
  | unsolvableOperation (op : Operator) (solver : String) (hint : Option Operator)
  /-- A failed write left its field changed. -/
  | inconsistentState (field : String) (before after : Value)
  /-- Every candidate failed. -/
  | noSolver (errors : List EngineError)
  /-- A solver failed in another way. -/
  | solver (name : String) (e : SolverError)
  /-- A field cannot take part in an edit session. -/
  | notEditable (field : String) (why : EditObstacle)
  /-- The object does not exist. -/
  | unknownObject (obj : ObjectId)
  /-- The object has no such field. -/
  | unknownField (obj : ObjectId) (field : String)
  /-- The constraint does not exist. -/
  | unknownConstraint (id : ConstraintId)
  /-- The solver does not exist. -/
  | unknownSolver (id : SolverId)
  /-- The request binds no such name. -/
  | unboundName (name : String)
  /-- A value or variable is not what was asked for. -/
  | mismatch (what : Mismatch)

namespace EngineError

/-- A solver's failure under the solver's name. -/
def ofSolver (name : String) : SolverError → EngineError
  | .unsatisfiable why => .unsatisfiable name why
  | e => .solver name e

/-- The wording of a failure. -/
def message : EngineError → String
  | .construction name fault =>
    name ++ " could not construct the constraint: " ++ fault.message
  | .unsatisfiable name why => name ++ " could not satisfy the constraint: " ++ why.message
  | .unsolvableOperation op name hint =>
    name ++ " does not support " ++ backquoted op.symbol ++
      match hint with
      | some h => " (try " ++ backquoted h.symbol ++ ")"
      | none => ""
  | .inconsistentState field before after =>
    "solving failed, but " ++ field ++ " changed from " ++ before.render ++ " to " ++ after.render
  | .noSolver errors =>
    "no solver available (" ++ toString errors.length ++ " candidate error(s))"
  | .solver name e => name ++ ": " ++ e.message
  | .notEditable field why => "cannot edit " ++ field ++ ": " ++ why.message
  | .unknownObject obj => "unknown object " ++ obj.render
  | .unknownField obj field => obj.render ++ " has no field " ++ backquoted field
  | .unknownConstraint id => "unknown constraint " ++ id.render
  | .unknownSolver id => "unknown solver " ++ id.render
  | .unboundName name => "name " ++ backquoted name ++ " is not bound in the request context"
  | .mismatch what => "type mismatch: " ++ what.message

/-- Merges the failures that were deferred during one call: a single one stands for itself, several
are collected, and the lists inside them are joined. -/
def merge? : List EngineError → Option EngineError
  | [] => none
  | [e] => some e
  | es => some (.noSolver (es.flatMap fun
      | .noSolver inner => inner
      | e => [e]))

end EngineError

end LiveConstraints

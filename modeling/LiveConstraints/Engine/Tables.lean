import LiveConstraints.Arena
import LiveConstraints.Config
import LiveConstraints.Engine.Request
import LiveConstraints.Measurement
/-!
# The tables of an engine

Host objects, the variables that intercept their fields, and the constraints over those variables.

Objects and variables refer to each other: a field is *intercepted* by a variable, and the
variable's key names the field. Variables and constraints do so too: a variable lists the
constraints it takes part in, and a constraint the variables it touches. A variable owns one
*binding* for each solver that was asked to represent it, either the solver's handle or the record
that the solver declined.
-/

namespace LiveConstraints

/-! ### Objects -/

/-- A field of an object. -/
inductive FieldSlot where
  /-- A value that nothing watches. -/
  | plain (v : Value)
  /-- A field whose reads and writes go through a variable. -/
  | intercepted (x : VarId)

/-- A host object. -/
structure HostObject where
  /-- The fields by name. -/
  fields : SortedMap String FieldSlot := ∅
  /-- The hooks by the name of the field they watch. -/
  hooks : SortedMap String Hook := ∅

instance : Inhabited HostObject := ⟨{}⟩

/-! ### Variables -/

/-- What a variable intercepts. -/
inductive VarKey where
  /-- A field of an object. -/
  | field (obj : ObjectId) (name : String)
  /-- A named part of the composite value of another variable. -/
  | part (parent : VarId) (name : String)

/-- The binding that is authoritative for a variable's value. -/
structure Defining where
  /-- The solver. -/
  solver : SolverId
  /-- An enabled constraint of that solver on the variable, if there is one. -/
  constraint : Option ConstraintId
  /-- The solver's variable. -/
  handle : ExtVar
  deriving DecidableEq, Repr

/-- A variable: the engine's side of one intercepted field. -/
structure Variable where
  /-- What it intercepts. -/
  key : VarKey
  /-- The last value stored outside every solver. -/
  shadow : Value
  /-- The bindings by solver; `none` records that the solver declined. -/
  bindings : SortedMap SolverId (Option ExtVar) := ∅
  /-- The constraints it takes part in. -/
  constraints : SortedSet ConstraintId := ∅
  /-- The variable through which it was reached. -/
  parent : Option VarId := none
  /-- The variables of its parts, by part name. -/
  parts : SortedMap String VarId := ∅
  /-- The defining binding, with the generation it was found in. -/
  definingMemo : Option (Nat × Option Defining) := none
  /-- Whether several solvers have an enabled constraint on it. -/
  multiSolver : Bool := false
  /-- The connected closure, with the generation it was found in. -/
  closureMemo : Option (Nat × List VarId) := none
  /-- The handles that a write in progress pinned. -/
  pinned : Option (List (SolverId × ExtVar)) := none

/-- The handles a variable is bound to. -/
def Variable.handles (v : Variable) : List (SolverId × ExtVar) :=
  v.bindings.entries.filterMap fun (s, h) => h.map fun h => (s, h)

/-- The handle a variable is bound to in one solver. -/
def Variable.handle? (v : Variable) (s : SolverId) : Option ExtVar := (v.bindings.find? s).join

/-! ### Constraints -/

/-- What a predicate has to evaluate to. -/
inductive BuildMode where
  /-- A relation to be maintained. -/
  | always
  /-- Anything: the predicate only names fields that should stay. -/
  | stay
  deriving DecidableEq, Repr

/-- A predicate realized by one solver. -/
structure Constraint where
  /-- The predicate. -/
  predicate : Expr
  /-- The options it was requested with. -/
  options : ConstraintOptions
  /-- What the predicate has to evaluate to. -/
  mode : BuildMode
  /-- The solver that realizes it. -/
  solver : SolverId
  /-- What the solver compiled. -/
  primitives : List Primitive := []
  /-- The variables it touches, in the order they were found. -/
  vars : List VarId := []
  /-- Whether it is switched on. -/
  enabled : Bool := false
  /-- Whether it is an assertion that held without a solver. -/
  isTest : Bool := false
  /-- How strongly it is held. -/
  priority : Priority
  /-- How many initiating writes lie between two selections of its solver. -/
  interval : Nat
  /-- The initiating writes since the last selection. -/
  counter : Nat := 0
  /-- Whether a write that it initiated is in progress. -/
  initiating : Bool := false
  /-- What the last switching on changed. -/
  measurement : Option Measurement := none

/-! ### The tables together -/

/-- What can be looked up in an engine. -/
structure Tables where
  /-- The defaults. -/
  config : Config
  /-- The host objects. -/
  objects : Arena .object HostObject
  /-- The variables. -/
  vars : Arena .variable Variable
  /-- The constraints. -/
  constraints : Arena .constraint Constraint
  /-- The registered solvers. -/
  solvers : Arena .solver Solver
  /-- The candidates where a request names no solver, in order. -/
  defaultSolvers : List SolverId
  /-- The one solver to use in place of the candidates. -/
  defaultSolver : Option SolverId

end LiveConstraints

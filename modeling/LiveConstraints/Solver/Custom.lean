import LiveConstraints.Solver.Capabilities
import LiveConstraints.Solver.Model
/-!
# Solvers from outside the library

An engine takes any solver that honours its contract, also one that the library knows nothing of.
Such a solver keeps a state of its own that nobody sees; all that can be seen of it is what it answers.
So it is known by its *behaviour*: what it would answer to each question after any calls at all. Its
state is the list of the calls that were made on it.

A behaviour is not bound to make sense. It may hand out a handle twice, change variables in a call that
fails, or report one value now and another after the next call, whatever that is.
-/

namespace LiveConstraints

/-- A call that may change a solver. -/
inductive SolverCall where
  /-- Represent a value, of a field that is called so in logs. -/
  | declare (v : Value) (label : String)
  /-- Forget a variable. -/
  | removeVariable (x : ExtVar)
  /-- Compile a term. -/
  | compile (t : Term)
  /-- Compile the demand that a variable keeps a value. -/
  | keep (x : ExtVar) (v : Value)
  /-- Switch a primitive on at a priority, or off. -/
  | setEnabled (p : Primitive) (priority : Option Priority)
  /-- Drop a primitive. -/
  | removePrimitive (p : Primitive)
  /-- Derive values for all enabled primitives. -/
  | solve
  /-- Adopt a value and solve around it. -/
  | suggest (x : ExtVar) (v : Value)
  /-- Set the read-only flag of a variable. -/
  | setReadonly (x : ExtVar) (on : Bool)
  /-- Prefer that a variable keeps its value. -/
  | stay (x : ExtVar) (priority : Priority)
  /-- Remove that preference. -/
  | removeStay (x : ExtVar)
  /-- Prepare a variable for an edit session. -/
  | prepareEdit (x : ExtVar)
  /-- Open an edit session. -/
  | beginEdit (xs : List ExtVar)
  /-- Set the variables of the open session and solve around them. -/
  | resolveBatch (values : List Value)
  /-- Release a variable after its edit session. -/
  | releaseEdit (x : ExtVar)
  /-- Close the open session. -/
  | endEdit
  /-- Change the weight. -/
  | setWeight (weight : Float)

/-- The calls made on a solver, the last one first. -/
abbrev SolverHistory := List SolverCall

/-- What a solver answers after any calls. -/
structure Behaviour where
  /-- What it declares about itself. -/
  capabilities : SolverHistory → Capabilities
  /-- Whether an operator can be applied to its variables. -/
  supports : SolverHistory → Operator → Bool
  /-- A supported operator to use in place of another. -/
  alternative? : SolverHistory → Operator → Option Operator
  /-- The variable for a value of a field, if it does not decline it. -/
  declare : SolverHistory → Value → String → Option ExtVar
  /-- The primitive for a term. -/
  compile : SolverHistory → Term → Except SolverError Primitive
  /-- The primitive for the demand that a variable keeps a value. -/
  keep : SolverHistory → ExtVar → Value → Except SolverError Primitive
  /-- Whether a call that asks for nothing else succeeds. -/
  outcome : SolverHistory → SolverCall → Except SolverError Unit
  /-- The value of a variable. -/
  value : SolverHistory → ExtVar → Value
  /-- Whether a variable is read-only. -/
  isReadonly : SolverHistory → ExtVar → Bool
  /-- Its counters. -/
  stats : SolverHistory → Stats

/-- A solver of which nothing but its behaviour is known. -/
structure Custom where
  /-- What it answers. -/
  behaviour : Behaviour
  /-- The calls made on it so far. -/
  history : SolverHistory := []

namespace Custom

/-- The solver after a call. -/
def after (c : Custom) (call : SolverCall) : Custom := { c with history := call :: c.history }

/-- Makes a call that asks for nothing but whether it succeeds. -/
def carryOut (c : Custom) (call : SolverCall) : Except SolverError Unit × Custom :=
  (c.behaviour.outcome c.history call, c.after call)

/-- Asks for a variable for a value. -/
def declare (c : Custom) (v : Value) (label : String) : Option ExtVar × Custom :=
  (c.behaviour.declare c.history v label, c.after (.declare v label))

/-- Asks for a primitive for a term. -/
def compile (c : Custom) (t : Term) : Except SolverError Primitive × Custom :=
  (c.behaviour.compile c.history t, c.after (.compile t))

/-- Asks for a primitive for the demand that a variable keeps a value. -/
def keep (c : Custom) (x : ExtVar) (v : Value) : Except SolverError Primitive × Custom :=
  (c.behaviour.keep c.history x v, c.after (.keep x v))

end Custom

end LiveConstraints

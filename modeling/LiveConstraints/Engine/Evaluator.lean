import LiveConstraints.Engine.Error
import LiveConstraints.Engine.Tables
/-!
# Evaluators

What turns a predicate into something that a solver maintains. Unless a program brings an evaluator of
its own, predicates are evaluated as expressions. One that is brought is known by what it does: it works
on an engine only through the operations below, one after another, and each of them may depend on what
came of those before it (`Construction`). To see which solvers a predicate suits, it reads fields and
looks things up, but changes nothing (`Inspecting`).

A `Setup` is what an engine is made with: its configuration, its evaluator, and the clock that tells how
long solving took. The clock is as good as any: what it shows when it is read for the `n`-th time is
given in advance.
-/

namespace LiveConstraints

/-- What a predicate evaluates to. -/
inductive Compiled where
  /-- A primitive of the solver, switched off. -/
  | primitive (p : Primitive)
  /-- A boolean that no solver can change. -/
  | native (b : Bool)
  /-- A value, not a relation. -/
  | value (v : Value)

/-- What a predicate touches. -/
structure Inspection where
  /-- The types of the fields it reads. -/
  types : List TypeTag := []
  /-- Whether it restricts anything to a finite domain. -/
  finiteDomain : Bool := false

/-- The same, the types each once and in their order. -/
def Inspection.normalized (i : Inspection) : Inspection :=
  { i with types := TypeTag.all.filter i.types.contains }

/-- What an evaluator gets to know of the solver that a predicate is evaluated for. -/
structure Prospect where
  /-- The name of the solver. -/
  solverName : String
  /-- Whether the solver supports an operator. -/
  supports : Operator → Bool
  /-- A supported operator to use in place of another. -/
  alternative? : Operator → Option Operator

/-- What an evaluator does for a predicate and a solver. An operation that fails need not end it. -/
inductive Construction where
  /-- Nothing more; that is what comes of it. -/
  | done (result : Except EngineError Compiled)
  /-- A field is intercepted for the constraint, reached through a variable if it is. -/
  | touchField (obj : ObjectId) (name : String) (parent : Option VarId)
      (next : Except EngineError VarId → Construction)
  /-- A part of a composite variable is intercepted for the constraint. -/
  | touchPart (parent : VarId) (name : String) (next : Except EngineError VarId → Construction)
  /-- The solver is told that it may not assign a variable. -/
  | pin (x : VarId) (next : Except EngineError Unit → Construction)
  /-- The fields of an object are listed. -/
  | fieldNames (obj : ObjectId) (next : Except EngineError (List String) → Construction)
  /-- A term is compiled by the solver. -/
  | compile (t : Term) (next : Except EngineError Primitive → Construction)
  /-- A variable is read. -/
  | read (x : VarId) (next : Value → Construction)
  /-- The solver's handle of a variable is looked up. -/
  | handle (x : VarId) (next : Option ExtVar → Construction)
  /-- The solver is asked about itself. -/
  | look (next : Prospect → Construction)

/-- What an evaluator does to inspect a predicate. -/
inductive Inspecting where
  /-- Nothing more; that is what comes of it. -/
  | done (result : Except EngineError Inspection)
  /-- A field is read. -/
  | read (obj : ObjectId) (field : String) (next : Except EngineError Value → Inspecting)
  /-- The solver that defines a variable is asked for. -/
  | defining (x : VarId) (next : Option SolverId → Inspecting)
  /-- The tables are looked into. -/
  | look (next : Tables → Inspecting)

/-- How predicates are evaluated. -/
inductive Evaluator where
  /-- As expressions. -/
  | expressions
  /-- By an evaluator from outside the library, which is given a predicate and the options of its
  constraint, and to inspect a predicate the names that it may use. -/
  | custom (evaluate : Expr → ConstraintOptions → Construction)
      (inspect : Expr → SortedMap String Value → Inspecting)

/-- What an engine is made with. -/
structure Setup extends Config where
  /-- How predicates are evaluated. -/
  evaluator : Evaluator := .expressions
  /-- The milliseconds that the clock counts for each solve that is timed, in order. -/
  clock : Nat → Float := fun _ => 0.0

end LiveConstraints

import LiveConstraints.Engine.Evaluator
import LiveConstraints.Engine.Event
/-!
# The state of an engine

The tables of host objects, variables, constraints and solvers, together with what a call in progress
keeps track of. An engine is one value of `Engine`; every operation is a function from engines to
engines.

`generation` ticks whenever the set of enabled constraints or the bindings change. The defining
solver and the connected closure of a variable are remembered together with the generation they were
computed in, and are valid in that generation only. What is kept of a generation has 64 bits, though,
so two generations look the same if a multiple of `2 ^ 64` ticks lies between them.
-/

namespace LiveConstraints

/-! ### Edit sessions and deferred work -/

/-- An open edit session. -/
structure EditSession where
  /-- The edited variables with the handles they were bound to. -/
  fields : List (VarId × List (SolverId × ExtVar))
  /-- The solvers taking part, each with the positions of the fields it edits. -/
  solvers : List (SolverId × List Nat)

/-- Work put off until the outermost call returns. -/
inductive Deferred where
  /-- A handler is to be given failures. -/
  | handle (handler : ErrorHandler) (errors : List EngineError)
  /-- A failure is to be returned by the outermost call. -/
  | rethrow (e : EngineError)

/-- A hook to be run when the write in progress is done. -/
structure PendingHook where
  /-- The object the hook is registered on. -/
  receiver : ObjectId
  /-- The field the hook watches. -/
  field : String
  /-- The hook. -/
  hook : Hook

/-! ### What requests are answered with -/

/-- A variable described from outside. -/
structure VariableView where
  /-- Its identity. -/
  id : VarId
  /-- The variable. -/
  state : Variable
  /-- The bindings with the values and read-only flags the solvers report. -/
  bindings : List (SolverId × Option (ExtVar × Value × Bool))
  /-- The solver that defines it. -/
  defining : Option SolverId
  /-- Whether several solvers have an enabled constraint on it. -/
  multiSolver : Bool

/-- A description of an engine. -/
structure Dump where
  /-- The variables. -/
  vars : List VariableView
  /-- The constraints. -/
  constraints : List (ConstraintId × Constraint)
  /-- The solvers. -/
  solvers : List Solver

/-- The answer to a request. -/
inductive Answer where
  /-- Done. -/
  | done
  /-- A value. -/
  | value (v : Value)
  /-- A boolean. -/
  | flag (b : Bool)
  /-- A new object. -/
  | object (id : ObjectId)
  /-- Names. -/
  | names (ns : List String)
  /-- A constraint, or that there is none because a handler was given the failures. -/
  | constraint (id : Option ConstraintId)
  /-- Constraints. -/
  | constraints (ids : List ConstraintId)
  /-- A constraint described. -/
  | description (c : Constraint)
  /-- The variable of a field with its defining solver and whether several solvers constrain it. -/
  | defining (answer : Option (VarId × Option SolverId × Bool))
  /-- An opened edit session. -/
  | session (s : EditSession)
  /-- There is no such edit session. -/
  | noSession
  /-- A solver, or that there is none. -/
  | solver (id : Option SolverId)
  /-- Solvers. -/
  | solvers (ids : List SolverId)
  /-- The counters of a solver. -/
  | stats (s : Stats)
  /-- The declarations of a solver. -/
  | capabilities (c : Capabilities)
  /-- What a predicate touches. -/
  | inspection (i : Inspection)
  /-- A description of the engine. -/
  | dump (d : Dump)

/-- An entry of the journal of hooks and handlers. -/
inductive JournalEntry where
  /-- A hook ran. -/
  | hook (receiver : ObjectId) (field : String) (v : Value)
  /-- A handler was given failures. -/
  | handler (tag : String) (errors : List EngineError)
  /-- A hook or handler made a request. -/
  | made (request : Request) (outcome : Except EngineError Answer)

/-! ### The engine -/

/-- What keeps nested calls from getting in each other's way. -/
structure Guards where
  /-- The variables whose defining solver is absorbing a suggestion. -/
  suggesting : List VarId := []
  /-- The variables that are propagating to their neighbours. -/
  storing : List VarId := []
  /-- Whether a write is being split into the parts of a composite value. -/
  splitting : Bool := false
  /-- Whether hooks are running. -/
  runningHooks : Bool := false
  /-- Whether deferred work is being done. -/
  draining : Bool := false
  /-- How many calls are in progress. -/
  nesting : Nat := 0
  /-- The changes of enabled constraints and bindings so far. -/
  generation : Nat := 0
  /-- The constraint that is being built or measured, with its solver. -/
  current : Option (ConstraintId × SolverId) := none

/-- Whether a generation looks like the present one: the counter has 64 bits. -/
def Guards.looksCurrent (g : Guards) (generation : Nat) : Bool :=
  UInt64.ofNat generation == UInt64.ofNat g.generation

/-- An engine. -/
structure Engine where
  /-- The defaults, the evaluator and the clock. -/
  config : Setup
  /-- The host objects. -/
  objects : Arena .object HostObject := ∅
  /-- The variables. -/
  vars : Arena .variable Variable := ∅
  /-- The constraints. -/
  constraints : Arena .constraint Constraint := ∅
  /-- The registered solvers. -/
  solvers : Arena .solver Solver := ∅
  /-- The candidates where a request names no solver, in order. -/
  defaultSolvers : List SolverId := []
  /-- The one solver to use in place of the candidates. -/
  defaultSolver : Option SolverId := none
  /-- The guards of calls in progress. -/
  guards : Guards := {}
  /-- The deferred work, in order. -/
  deferred : List Deferred := []
  /-- The hooks collected by the write in progress. -/
  pendingHooks : Option (List PendingHook) := none
  /-- The edit sessions in order of opening; a closed one leaves a hole. -/
  sessions : Array (Option EditSession) := #[]
  /-- How often the clock was read so far. -/
  clockReads : Nat := 0
  /-- The events reported so far, in order. -/
  events : Array Event := #[]
  /-- What hooks and handlers did so far, in order. -/
  journal : Array JournalEntry := #[]

namespace Engine

/-- An engine without solvers. -/
def new (config : Setup) : Engine := { config }

/-- Registers a solver without making it a candidate. -/
def registerSolver (e : Engine) (s : Solver) : SolverId × Engine :=
  (e.solvers.next, { e with solvers := e.solvers.insert s })

/-- Registers a solver as the last default candidate. -/
def addSolver (e : Engine) (s : Solver) : SolverId × Engine :=
  let (id, e) := e.registerSolver s
  (id, { e with defaultSolvers := e.defaultSolvers ++ [id] })

/-- An engine with the reference solvers as candidates: dataflow, relaxation, domain search. -/
def withReferenceSolvers (config : Setup) : Engine :=
  let limits := config.relaxation
  [Solver.dataflow, Solver.relaxation limits.maxSweeps limits.tolerance,
    Solver.domainSearch config.search.maxNodes].foldl (fun e s => (e.addSolver s).2) (new config)

/-- What can be looked up in an engine. -/
def tables (e : Engine) : Tables where
  config := e.config.toConfig
  objects := e.objects
  vars := e.vars
  constraints := e.constraints
  solvers := e.solvers
  defaultSolvers := e.defaultSolvers
  defaultSolver := e.defaultSolver

/-- The slot of a field. -/
def slot? (e : Engine) (obj : ObjectId) (field : String) : Except EngineError FieldSlot :=
  match e.objects.get? obj with
  | none => .error (.unknownObject obj)
  | some o =>
    match o.fields.find? field with
    | none => .error (.unknownField obj field)
    | some slot => .ok slot

/-- The variable that intercepts a field. -/
def variableOf? (e : Engine) (obj : ObjectId) (field : String) : Option VarId :=
  match e.slot? obj field with
  | .ok (.intercepted x) => some x
  | _ => none

/-- The name of a solver; an unknown one is called by its identity. -/
def solverName (e : Engine) (id : SolverId) : String :=
  match e.solvers.get? id with
  | some s => s.name
  | none => id.render

/-- The path of the field that a variable intercepts. -/
def fieldLabel (e : Engine) (x : VarId) : String :=
  go (x.index + 1) x
where
  /-- Follows at most `n` parts upwards; a part is younger than the variable it belongs to. -/
  go : Nat → VarId → String
    | 0, x => x.render
    | n + 1, x =>
      match (e.vars.get? x).map Variable.key with
      | some (.field obj name) => obj.render ++ "." ++ name
      | some (.part parent name) => go n parent ++ "." ++ name
      | none => x.render

/-- The constraint of an identity, if it exists and is switched on for a solver. -/
def enabledFor (e : Engine) (s : SolverId) (id : ConstraintId) : Bool :=
  (e.constraints.get? id).any fun c => c.enabled && c.solver == s

end Engine

end LiveConstraints

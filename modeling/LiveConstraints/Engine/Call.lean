import LiveConstraints.Engine.State
/-!
# Calls

The two kinds of computation over an engine. A `Step` always succeeds. A `Call` may fail, and what
it did to the engine before it failed stays done: nothing is rolled back unless the engine does so
itself.

A call can also be interrupted because calls are nested too deeply. An interruption is not a failure
of the request and is never caught: `attempt` hands failures over and lets interruptions pass.
-/

namespace LiveConstraints

/-- Why a call did not finish. -/
inductive Halt where
  /-- The request failed. -/
  | failed (e : EngineError)
  /-- Calls were nested too deeply. -/
  | tooDeep

/-- A computation over an engine that always succeeds. -/
abbrev Step := StateM Engine

/-- A computation over an engine that may fail. -/
abbrev Call := ExceptT Halt (StateM Engine)

namespace Call

/-- Fails. -/
def fail {α : Type} (e : EngineError) : Call α := throw (.failed e)

/-- Turns a result into a call. -/
def ofExcept {α : Type} : Except EngineError α → Call α
  | .ok a => pure a
  | .error e => fail e

/-- Runs a call and hands over its failure as a value. -/
def attempt {α : Type} (call : Call α) : Call (Except EngineError α) := fun e =>
  match call e with
  | (.ok a, e) => (.ok (.ok a), e)
  | (.error (.failed err), e) => (.ok (.error err), e)
  | (.error .tooDeep, e) => (.error .tooDeep, e)

/-- A call without failure changes the engine as it is told to. -/
theorem attempt_ok {α : Type} {call : Call α} {e e' : Engine} {a : α}
    (h : call e = (.ok a, e')) : attempt call e = (.ok (.ok a), e') := by
  simp [attempt, h]

/-- A failure is handed over, and the engine stays as the failed call left it. -/
theorem attempt_failed {α : Type} {call : Call α} {e e' : Engine} {err : EngineError}
    (h : call e = (.error (.failed err), e')) : attempt call e = (.ok (.error err), e') := by
  simp [attempt, h]

end Call

namespace Step

/-- Changes the guards. -/
def modifyGuards (f : Guards → Guards) : Step Unit :=
  modify fun e => { e with guards := f e.guards }

/-- Starts a new generation. -/
def tick : Step Unit := modifyGuards fun g => { g with generation := g.generation + 1 }

/-- Reports an event. -/
def report (event : Event) : Step Unit := modify fun e => { e with events := e.events.push event }

/-- The milliseconds that a solve took, as the clock counts them. -/
def elapsed : Step Float := do
  let e ← get
  set { e with clockReads := e.clockReads + 1 }
  return e.config.clock e.clockReads

/-- Adds an entry to the journal. -/
def record (entry : JournalEntry) : Step Unit :=
  modify fun e => { e with journal := e.journal.push entry }

/-- Changes a variable that exists. -/
def modifyVariable (x : VarId) (f : Variable → Variable) : Step Unit :=
  modify fun e => { e with vars := e.vars.modify x f }

/-- Changes a constraint that exists. -/
def modifyConstraint (id : ConstraintId) (f : Constraint → Constraint) : Step Unit :=
  modify fun e => { e with constraints := e.constraints.modify id f }

/-- Changes a solver that exists. -/
def modifySolver (id : SolverId) (f : Solver → Solver) : Step Unit :=
  modify fun e => { e with solvers := e.solvers.modify id f }

/-- Makes a call on a solver that exists; `none` when it does not. -/
def callSolver? {α : Type} (id : SolverId) (f : Solver → α × Solver) : Step (Option α) := do
  match (← get).solvers.get? id with
  | none => return none
  | some s =>
    let (a, s) := f s
    modifySolver id fun _ => s
    return some a

/-- Defers work until the outermost call returns. -/
def defer (work : Deferred) : Step Unit :=
  modify fun e => { e with deferred := e.deferred ++ [work] }

end Step

namespace Call

/-- A variable, which has to exist. -/
def variableAt (x : VarId) : Call Variable := do
  match (← get).vars.get? x with
  | some v => return v
  | none => fail (.mismatch (.released x))

/-- A constraint, which has to exist. -/
def constraintAt (id : ConstraintId) : Call Constraint := do
  match (← get).constraints.get? id with
  | some c => return c
  | none => fail (.unknownConstraint id)

/-- Changes a constraint, which has to exist. -/
def changeConstraint (id : ConstraintId) (f : Constraint → Constraint) : Call Unit := do
  let _ ← constraintAt id
  Step.modifyConstraint id f

/-- A solver, which has to exist. -/
def solverAt (id : SolverId) : Call Solver := do
  match (← get).solvers.get? id with
  | some s => return s
  | none => fail (.unknownSolver id)

/-- Makes a call on a solver, which has to exist. -/
def callSolver {α : Type} (id : SolverId) (f : Solver → α × Solver) : Call α := do
  match ← Step.callSolver? id f with
  | some a => return a
  | none => fail (.unknownSolver id)

/-- Makes a call on a solver that may fail; the failure carries the solver's name. -/
def askSolver {α : Type} (id : SolverId) (f : Solver → Except SolverError α × Solver) : Call α := do
  let name := (← get).solverName id
  match ← callSolver id f with
  | .ok a => return a
  | .error e => fail (.ofSolver name e)

/-- Changes a solver, which has to exist. -/
def changeSolver (id : SolverId) (f : Solver → Solver) : Call Unit :=
  callSolver id fun s => ((), f s)

/-- The slot of a field, which has to exist. -/
def slotAt (obj : ObjectId) (field : String) : Call FieldSlot := do
  ofExcept ((← get).slot? obj field)

/-- An object, which has to exist. -/
def objectAt (obj : ObjectId) : Call HostObject := do
  match (← get).objects.get? obj with
  | some o => return o
  | none => fail (.unknownObject obj)

/-- Sets the slot of a field of an object that exists. -/
def setSlot (obj : ObjectId) (field : String) (slot : FieldSlot) : Call Unit := do
  let _ ← objectAt obj
  modify fun e => { e with
    objects := e.objects.modify obj fun o => { o with fields := o.fields.insert field slot } }

/-- The names of the fields of an object, which has to exist. -/
def fieldNames (obj : ObjectId) : Call (List String) := do
  return (← objectAt obj).fields.keys

end Call

end LiveConstraints

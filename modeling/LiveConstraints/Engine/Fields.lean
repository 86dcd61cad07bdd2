import LiveConstraints.Engine.Outermost
/-!
# Objects and fields from outside

Allocating objects, writing fields and registering hooks. A field nobody watches is written at once;
a write to an intercepted field is a call of its own, which solves and propagates before it returns.
-/

namespace LiveConstraints.Call

/-- Allocates an object with the given fields; of two with one name the later counts. -/
def createObject (fields : List (String × Value)) : Call ObjectId := do
  let id := (← get).objects.next
  let object : HostObject :=
    { fields := .ofList (fields.map fun (name, v) => (name, .plain v)) }
  modify fun e => { e with objects := e.objects.insert object }
  return id

/-- The slot of a field of an object that exists; a missing field is created without a value. -/
def slotOrCreate (obj : ObjectId) (field : String) : Call FieldSlot := do
  match (← objectAt obj).fields.find? field with
  | some slot => return slot
  | none =>
    setSlot obj field (.plain .none)
    return .plain .none

/-- Writes a field; the answer is the value that was written. -/
def writeField (r : Reentry) (obj : ObjectId) (field : String) (v : Value) : Call Value := do
  match ← slotOrCreate obj field with
  | .plain _ =>
    setSlot obj field (.plain v)
    return v
  | .intercepted x => topLevel r (suggest r x v .source false)

/-- Registers the hook that runs when a write changed what is reached through a field. The field
need not exist. -/
def onWrite (obj : ObjectId) (field : String) (hook : Hook) : Call Unit := do
  let _ ← objectAt obj
  modify fun e => { e with
    objects := e.objects.modify obj fun o => { o with hooks := o.hooks.insert field hook } }

/-- The variable of a field with its defining solver, and whether several solvers have an enabled
constraint on it; `none` for a field that is not intercepted. -/
def definingOf (obj : ObjectId) (field : String) :
    Call (Option (VarId × Option SolverId × Bool)) := do
  match (← get).variableOf? obj field with
  | none => return none
  | some x =>
    let solver := (← Step.defining x).map Defining.solver
    let multiSolver := ((← get).vars.get? x).any Variable.multiSolver
    return some (x, solver, multiSolver)

end LiveConstraints.Call

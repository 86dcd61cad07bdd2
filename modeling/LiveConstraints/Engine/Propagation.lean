import LiveConstraints.Engine.Evaluation
/-!
# Propagating a value

A value that one solver produced has to reach everything else that depends on the variable: the
other solvers' copies, the parts of a composite value, the constraints whose paths lead through the
variable, and the variables that share a constraint with it.

Propagation leads back to writing, rebuilding and, through hooks and handlers, to any request at
all. `Reentry` stands for these ways back in: the functions of the engine take it as a parameter, so
each of them is defined without recursion, and the module that joins them ties the knot by the depth
of nesting.
-/

namespace LiveConstraints

/-- Where a write comes from. -/
inductive Origin where
  /-- A request assigned the field. -/
  | source
  /-- The engine passes on what a solver produced. -/
  | propagation
  /-- A failed write puts the prior value back. -/
  | restore
  deriving DecidableEq, Repr

/-- The ways back into the engine from inside a call. -/
structure Reentry where
  /-- How many deferred failures one call may hand to handlers. -/
  patience : Nat
  /-- Writes a value to a variable. -/
  suggest : VarId → Value → Origin → Bool → Call Value
  /-- Rebuilds a constraint whose paths changed. -/
  recalculate : ConstraintId → Call Unit
  /-- Makes the requests of a hook or handler. -/
  act : List Request → Call Unit

namespace Call

/-- Suggests a value to one handle, whose read-only flag is lifted for the call. -/
def suggestTo (s : SolverId) (h : ExtVar) (v : Value) : Call Unit :=
  askSolver s fun solver =>
    let readonly := solver.isReadonly h
    let (result, solver) := (solver.setReadonly h false).suggest h v
    (result, solver.setReadonly h readonly)

/-- The handles of a variable in solvers other than its defining one. -/
def downstreamHandles (x : VarId) : Call (List (SolverId × ExtVar)) := do
  let defining := (← Step.defining x).map Defining.solver
  return (← variableAt x).handles.filter fun (s, _) => some s != defining

/-- Hands a value to every solver except the defining one. -/
def updateDownstream (x : VarId) (v : Value) : Call Unit := do
  for (s, h) in ← downstreamHandles x do
    suggestTo s h v

/-- Stores a value in a variable. -/
def store (x : VarId) (v : Value) : Call Unit :=
  Step.modifyVariable x fun w => { w with shadow := v }

/-- Writes the parts of a composite value to the variables of the parts. -/
def splitInto (r : Reentry) (v : Value) (parts : List (String × VarId)) : Call Unit :=
  parts.forM fun (name, part) =>
    match v.part? name with
    | some number => do
      let _ ← r.suggest part (.number number) .propagation false
    | none => return ()

/-- Whether a write replaces one composite value by another in a variable that no solver defines. -/
def replacesComposite (x : VarId) (old new : Value) : Call Bool := do
  if old.isComposite && new.isComposite then return (← Step.defining x).isNone else return false

/-- Stores a value and updates what no solver variable represents: the parts of a composite value,
and the constraints whose solver has no handle for the variable, which are rebuilt. -/
def updateUnbound (r : Reentry) (x : VarId) (v : Value) : Call Unit := do
  let w ← variableAt x
  if ← replacesComposite x w.shadow v then
    if !(← get).guards.splitting then
      Step.modifyGuards fun g => { g with splitting := true }
      let result ← attempt (splitInto r v w.parts.entries)
      Step.modifyGuards fun g => { g with splitting := false }
      ofExcept result
    store x v
  else
    let e ← get
    let stale := w.constraints.members.filter fun id =>
      (e.constraints.get? id).any fun c => (w.handle? c.solver).isNone
    store x v
    for id in stale do
      r.recalculate id

/-- Suggests their own current values to all variables that share a constraint with a variable, so
that each of them propagates what its solver changed. -/
def updateConnected (r : Reentry) (x : VarId) : Call Unit := do
  let w ← variableAt x
  let connected := (← get).neighbours w
  for y in connected.eraseDups do
    if (← get).vars.contains y then
      let v ← Step.read y
      let _ ← r.suggest y v .propagation false

/-- Puts the prior value of a variable back. -/
def putBack (r : Reentry) (x : VarId) (old : Value) : Call Unit := do
  match ← attempt (r.suggest x old .restore true) with
  | .ok _ => return ()
  | .error err =>
    let label := (← get).fieldLabel x
    Step.report (.restoreFailed label err)

/-- Hands a value to everything that depends on a variable, unless the variable is propagating. A
failed write by a request puts the prior value back before it is reported. -/
def spread (r : Reentry) (x : VarId) (v old : Value) (origin : Origin) : Call Unit := do
  if (← get).guards.storing.contains x then return ()
  Step.modifyGuards fun g => { g with storing := g.storing ++ [x] }
  let result ← attempt do
    updateDownstream x v
    updateUnbound r x v
    updateConnected r x
  Step.modifyGuards fun g => { g with storing := g.storing.erase x }
  match result with
  | .ok () => return ()
  | .error err =>
    if origin = .source then putBack r x old
    fail err

/-- Propagates a value from a variable unless the variable stores it already. -/
def propagate (r : Reentry) (x : VarId) (v old : Value) (origin : Origin) (force : Bool) :
    Call Unit := do
  if !force then
    if v.near (← storedValue x) then return ()
  spread r x v old origin

end Call

end LiveConstraints

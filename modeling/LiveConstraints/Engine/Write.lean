import LiveConstraints.Engine.Selection
/-!
# Writing a variable

The write path. A value that is new is suggested to the variable's defining solver; then it is
propagated; then the hooks that watch anything that changed run, once each. While a write from
outside is under way the defining solver is made heavier and the other solvers' handles of all
connected variables are pinned, so that the solvers downstream follow and do not lead.

A write that fails is compared with the value the field had. If the field kept it, the failure goes
to the first handler among the variable's constraints or to the caller; if not, the state is
inconsistent.
-/

namespace LiveConstraints

namespace Step

/-- Pins the handles of a variable in solvers other than its defining one, unless that was done. -/
def pinDownstream (x : VarId) : Step Unit := do
  match (← get).vars.get? x with
  | none => return ()
  | some v =>
    if v.pinned.isSome then return ()
    let defining := (← defining x).map Defining.solver
    let e ← get
    let writable := v.handles.filter fun (s, h) =>
      some s != defining && (e.solvers.get? s).any fun solver => !solver.isReadonly h
    for (s, h) in writable do
      modifySolver s fun solver => solver.setReadonly h true
    modifyVariable x fun v => { v with pinned := some writable }

/-- Releases the handles that were pinned. -/
def unpinDownstream (x : VarId) : Step Unit := do
  let pinned := (((← get).vars.get? x).bind Variable.pinned).getD []
  modifyVariable x fun v => { v with pinned := none }
  for (s, h) in pinned do
    modifySolver s fun solver => solver.setReadonly h false

/-- Makes a solver heavier and pins the handles downstream of the given variables. -/
def bump (s : SolverId) (xs : List VarId) : Step Unit := do
  let amount := (← get).config.weightBump
  modifySolver s fun solver => solver.setWeight (solver.weight + amount)
  tick
  xs.forM pinDownstream

/-- Takes a bump back. -/
def unbump (s : SolverId) (xs : List VarId) : Step Unit := do
  let amount := (← get).config.weightBump
  modifySolver s fun solver => solver.setWeight (solver.weight - amount)
  tick
  xs.forM unpinDownstream

/-- Marks a constraint as initiating a write if a defining constraint is given and is not doing so
already; the constraint if it was marked. -/
def initiate (defining : Option Defining) : Step (Option ConstraintId) := do
  match defining.bind Defining.constraint with
  | none => return none
  | some id =>
    match (← get).constraints.get? id with
    | none => return none
    | some c =>
      if c.initiating then return none
      modifyConstraint id fun c => { c with initiating := true }
      return some id

end Step

/-- The pending hooks without repetitions of a receiver and field; the first one counts. -/
def PendingHook.distinct (hooks : List PendingHook) : List PendingHook :=
  hooks.foldl (fun kept h =>
    if kept.any fun k => k.receiver == h.receiver && k.field == h.field then kept
    else kept ++ [h]) []

namespace Call

/-- Collects the hook that watches a variable, if a solver defines the variable. -/
def collectHook (x : VarId) : Call Unit := do
  if (← Step.defining x).isSome then
    match (← get).hookOf? x with
    | some (some hook) =>
      modify fun e => { e with pendingHooks := e.pendingHooks.map (· ++ [hook]) }
    | some none => return ()
    | none => throw .tooDeep

/-- Runs one hook, which is given the current value of its field. -/
def runHook (r : Reentry) (h : PendingHook) : Call Unit := do
  match ← attempt (readField h.receiver h.field) with
  | .error err => Step.report (.hookSkipped h.receiver h.field err)
  | .ok v =>
    Step.record (.hook h.receiver h.field v)
    r.act h.hook

/-- Runs the collected hooks. Meanwhile writes to intercepted fields have no effect. -/
def runHooks (r : Reentry) : Call Unit := do
  let hooks := (← get).pendingHooks.getD []
  modify fun e => { e with pendingHooks := none }
  Step.modifyGuards fun g => { g with runningHooks := true }
  (PendingHook.distinct hooks).forM (runHook r)
  Step.modifyGuards fun g => { g with runningHooks := false }

/-- What a write bumped: a solver and the variables whose handles were pinned. -/
abbrev Bumped := Option (SolverId × List VarId)

/-- What a write bumps: nothing when the engine passes a value on. -/
def bumpFor (x : VarId) (origin : Origin) (d : Defining) : Step Bumped := do
  if origin = .propagation then return none
  let closure ← Step.closure x
  Step.bump d.solver closure
  return some (d.solver, closure)

/-- Suggests a value to the defining solver of a variable; returns what was bumped for the write
together with the outcome. -/
def offer (x : VarId) (v : Value) (origin : Origin) (d : Defining) :
    Call (Bumped × Except EngineError Unit) := do
  let bumped ← bumpFor x origin d
  let result ← attempt (suggestTo d.solver d.handle v)
  return (bumped, result)

/-- Makes the offer to the defining solver, unless the variable is already being suggested to. -/
def suggestPrimary (x : VarId) (v : Value) (origin : Origin) (d : Defining) :
    Call (Bumped × Except EngineError Unit) := do
  if (← get).guards.suggesting.contains x then return (none, .ok ())
  Step.modifyGuards fun g => { g with suggesting := g.suggesting ++ [x] }
  let outcome ← offer x v origin d
  Step.modifyGuards fun g => { g with suggesting := g.suggesting.erase x }
  Step.reportSolve d.constraint d.solver .write
  return outcome

/-- Counts an initiating write on a constraint, and selects its solver anew when its interval is
over. -/
def countWrite (r : Reentry) (id : ConstraintId) : Call Unit := do
  changeConstraint id fun c => { c with counter := c.counter + 1 }
  let c ← constraintAt id
  if c.interval ≤ c.counter then
    reevaluate r id
    Step.modifyConstraint id fun c => { c with counter := 0 }

/-- What follows on a suggestion that the defining solver adopted. -/
def followUp (r : Reentry) (x : VarId) (v old : Value) (origin : Origin) (force outermost : Bool)
    (initiating : Option ConstraintId) : Call Unit := do
  match initiating with
  | some id => countWrite r id
  | none => pure ()
  propagate r x v old origin force
  collectHook x
  if outermost then runHooks r

/-- Gives a failure to the first handler among the constraints of a variable, deferred, or else
fails. -/
def handOver (x : VarId) (err : EngineError) : Call Unit := do
  let e ← get
  let handler? := (e.vars.get? x).bind fun v =>
    v.constraints.members.findSome? fun id =>
      (e.constraints.get? id).bind fun c => c.options.onError
  match handler? with
  | some handler => Step.defer (.handle handler [err])
  | none => fail err

/-- What a write leaves behind: the constraint that it marked as initiating, what it bumped, and how
it went. -/
structure Written where
  /-- The constraint that was marked. -/
  initiating : Option ConstraintId
  /-- What was bumped. -/
  bumped : Bumped
  /-- How it went. -/
  result : Except EngineError Unit

/-- Makes the offer to the defining solver and, when it is adopted, what follows on it. -/
def absorb (r : Reentry) (x : VarId) (v old : Value) (origin : Origin) (force outermost : Bool) :
    Call Written := do
  let defining ← Step.defining x
  let initiating ← Step.initiate defining
  let (bumped, primary) ← match defining with
    | some d => suggestPrimary x v origin d
    | none => pure (none, .ok ())
  let result ← match primary with
    | .error err => pure (.error err)
    | .ok () => attempt (followUp r x v old origin force outermost initiating)
  return ⟨initiating, bumped, result⟩

/-- Takes back what a write bumped and marked. -/
def Written.takeBack (w : Written) : Step Unit := do
  match w.bumped with
  | some (s, closure) => Step.unbump s closure
  | none => pure ()
  match w.initiating with
  | some id => Step.modifyConstraint id fun c => { c with initiating := false }
  | none => pure ()

/-- Answers a write. A failure is handed over if the variable kept its value. -/
def conclude (x : VarId) (v old : Value) (result : Except EngineError Unit) : Call Value := do
  match result with
  | .ok () => return v
  | .error err =>
    let now ← Step.read x
    if now.near old then
      handOver x err
      return v
    else fail (.inconsistentState ((← get).fieldLabel x) old now)

/-- Writes a value to a variable. Without `force` a value that the variable stores already is left
alone. -/
def suggest (r : Reentry) (x : VarId) (v : Value) (origin : Origin) (force : Bool) :
    Call Value := do
  if (← get).guards.runningHooks then return v
  let old ← storedValue x
  if !force && v.near old then return v
  let outermost := (← get).pendingHooks.isNone
  if outermost then modify fun e => { e with pendingHooks := some [] }
  let written ← absorb r x v old origin force outermost
  if outermost then modify fun e => { e with pendingHooks := none }
  written.takeBack
  conclude x v old written.result

end Call

end LiveConstraints

import LiveConstraints.Engine.Propagation
/-!
# Switching constraints on

Switching a constraint on switches on its primitives, lets its solver solve, and propagates every
variable that the solver moved. While candidates are compared nothing is propagated; only the
changes are measured.

A constraint whose paths lead elsewhere after a write is *recalculated*: it is dismantled, evaluated
afresh and switched on again. Variables that it newly reaches keep their values as if they had been
assigned, by temporary primitives that are weakened if the solver cannot satisfy them.
-/

namespace LiveConstraints

/-- Reports a solve if the constraint, or else the configuration, asks for it. -/
def Step.reportSolve (id : Option ConstraintId) (s : SolverId) (phase : SolvePhase) :
    Step Unit := do
  let e ← get
  let asked := (id.bind e.constraints.get?).bind fun c => c.options.logTimings
  if asked.getD e.config.logTimings then report (.solveTiming (e.solverName s) phase)

namespace Call

/-- Switches on primitives and, unless the constraint is an assertion, solves. -/
def activate (id : ConstraintId) (c : Constraint) : Call Unit := do
  for p in c.primitives do
    askSolver c.solver fun s => s.enable p c.priority
  changeConstraint id fun c => { c with enabled := true }
  if !c.isTest then
    askSolver c.solver Solver.solve

/-- Takes back a failed activation. -/
def deactivate (id : ConstraintId) (c : Constraint) : Step Unit := do
  for p in c.primitives do
    Step.modifySolver c.solver fun s => (s.disable p).2
  Step.modifyConstraint id fun c => { c with enabled := false }
  Step.tick

/-- Measures what a constraint changed and, unless candidates are compared, propagates it. -/
def reconcile (r : Reentry) (compare : Bool) : List VarId → Call (List Change)
  | [] => return []
  | x :: xs => do
    match (← get).vars.get? x with
    | none => reconcile r compare xs
    | some v =>
      let old := v.shadow
      let new ← Step.read x
      if !compare && !old.near new then
        updateDownstream x new
        propagate r x new old .propagation false
      let rest ← reconcile r compare xs
      return ⟨x, old, new⟩ :: rest

/-- Switches a constraint on, unless it is on. -/
def enable (r : Reentry) (id : ConstraintId) (compare : Bool) : Call Unit := do
  let c ← constraintAt id
  if c.enabled then return ()
  if c.primitives.isEmpty && !c.isTest then
    fail (.construction ((← get).solverName c.solver) .noPrimitives)
  Step.tick
  match ← attempt (activate id c) with
  | .error err =>
    deactivate id c
    fail err
  | .ok () =>
    let elapsedMs ← Step.elapsed
    Step.reportSolve (some id) c.solver .enable
    let changes ← reconcile r compare (← constraintAt id).vars
    changeConstraint id fun c => { c with measurement := some { elapsedMs, changes } }

/-- Makes a solver keep the current value of a variable, required if it can be and strong otherwise;
the primitive if the solver has a handle for the variable. -/
def transplant? (s : SolverId) (x : VarId) : Call (Option Primitive) := do
  match (← get).handle? x s with
  | none => return none
  | some h =>
    let v ← Step.read x
    let p ← askSolver s fun solver => solver.keep h v
    callSolver s fun solver =>
      match solver.enable p .required with
      | (.ok (), solver) => ((), solver)
      | (.error _, solver) => ((), (solver.enable p .strong).2)
    return some p

/-- Switches a constraint on while newly reached variables keep their values; when that fails, once
more with the values as strong preferences. -/
def enableTransplanted (r : Reentry) (id : ConstraintId) (s : SolverId) (ps : List Primitive) :
    Call Unit := do
  match ← attempt (enable r id false) with
  | .ok () => return ()
  | .error _ =>
    Step.disable id
    for p in ps do
      Step.modifySolver s fun solver => ((solver.disable p).2.enable p .strong).2
    enable r id false

/-- Takes a constraint apart: switches it off, removes its primitives and takes it out of its
variables' membership. -/
def dismantle (id : ConstraintId) (c : Constraint) : Call Unit := do
  Step.disable id
  changeConstraint id fun c => { c with primitives := [] }
  for p in c.primitives do
    Step.modifySolver c.solver fun s => s.removePrimitive p
  for x in c.vars do
    Step.leave x id
  changeConstraint id fun c => { c with vars := [] }

/-- Lets go of variables that a constraint no longer reaches. -/
def forsake (s : SolverId) (xs : List VarId) : Call Unit := do
  for x in xs do
    match (← get).handle? x s with
    | some h => changeSolver s fun solver => solver.removeStay h
    | none => pure ()
    Step.detachUnused x

/-- Rebuilds an enabled constraint after the objects under one of its paths changed. -/
def recalculate (r : Reentry) (id : ConstraintId) : Call Unit := do
  let c ← constraintAt id
  if !c.enabled then return ()
  dismantle id c
  realize id
  let reached := (← constraintAt id).vars
  forsake c.solver (c.vars.filter fun x => !reached.contains x)
  let transplants ← (reached.filter fun x => !c.vars.contains x).filterMapM
    (transplant? c.solver)
  let result ← attempt (enableTransplanted r id c.solver transplants)
  for p in transplants do
    Step.modifySolver c.solver fun s => (s.disable p).2.removePrimitive p
  ofExcept result

end Call

end LiveConstraints

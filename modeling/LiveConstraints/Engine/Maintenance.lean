import LiveConstraints.Engine.Outermost
/-!
# Constraints from outside

The requests that create constraints and those that control them. Each is a call of its own, so its
failures reach a handler or the caller only after its work is done. Switching a constraint off
cannot fail.
-/

namespace LiveConstraints

/-- The solver that holds stays: the one the options name, else the default solver, else the first
default candidate. -/
def Engine.stayingSolver? (e : Engine) (options : ConstraintOptions) : Option SolverId :=
  (options.solver.or e.defaultSolver).or e.defaultSolvers.head?

namespace Call

/-- Maintains a predicate from now on. Without a constraint the failures went to the handler. -/
def always (r : Reentry) (predicate : Expr) (options : ConstraintOptions) :
    Call (Option ConstraintId) :=
  topLevel r (maintain r predicate options)

/-- Solves a predicate once, and stops maintaining it. -/
def once (r : Reentry) (predicate : Expr) (options : ConstraintOptions) :
    Call (Option ConstraintId) := do
  let id ← always r predicate options
  match id with
  | some id => Step.disable id
  | none => pure ()
  return id

/-- Attaches a stay to a variable of a solver; a variable that cannot get one is reported and
skipped. -/
def attachStay (s : SolverId) (priority : Priority) (x : VarId) : Call Unit := do
  match (← get).handle? x s with
  | some h =>
    match ← callSolver s fun solver => solver.stay h priority with
    | .ok () => return ()
    | .error err => Step.report (.stayFailed ((← get).fieldLabel x) err)
  | none =>
    let e ← get
    Step.report (.staySkipped (e.fieldLabel x) (e.solverName s))

/-- Attaches stays to the fields a predicate names. Their constraint is never switched on. -/
def stay (r : Reentry) (predicate : Expr) (options : ConstraintOptions) : Call ConstraintId :=
  topLevel r do
    match (← get).stayingSolver? options with
    | none => fail (.noSolver [])
    | some s =>
      let id ← build predicate s options .stay
      let c ← constraintAt id
      c.vars.forM (attachStay s c.priority)
      return id

/-- Switches a constraint on and propagates what its solver changed. -/
def switchOn (r : Reentry) (id : ConstraintId) : Call Unit := topLevel r (enable r id false)

/-- Changes the priority of a constraint; one that is on is switched off and on again. -/
def setPriority (r : Reentry) (id : ConstraintId) (priority : Priority) : Call Unit := do
  let c ← constraintAt id
  if c.enabled then Step.disable id
  changeConstraint id fun c => { c with priority }
  if c.enabled then switchOn r id

/-- Changes how many initiating writes lie between two selections of a constraint's solver; at least
one. -/
def setInterval (id : ConstraintId) (interval : Nat) : Call Unit :=
  changeConstraint id fun c => { c with interval := max 1 interval }

/-- Selects the solver of a constraint anew. -/
def reselect (r : Reentry) (id : ConstraintId) : Call Unit := topLevel r (reevaluate r id)

/-- Changes the weight of a solver. -/
def setWeight (s : SolverId) (weight : Float) : Call Unit := do
  changeSolver s fun solver => solver.setWeight weight
  Step.tick

end Call

end LiveConstraints

import LiveConstraints.Engine.Enabling
/-!
# Selecting a solver

A request that names no solver is tried with every candidate: those whose declarations rule the
predicate out are rejected, a constraint is built for each of the others, and if there are several
they are switched on one after another, measured, and compared. The best is switched on for good and
the rest abandoned.

Selecting anew repeats the comparison for a constraint that exists. When another solver wins, its
realization moves into the constraint, which keeps its identity.
-/

namespace LiveConstraints

/-- The solvers a request is tried with: the one it names, else the default solver, else the default
candidates. -/
def Engine.candidates (e : Engine) (options : ConstraintOptions) : List SolverId :=
  match options.solver.or e.defaultSolver with
  | some s => [s]
  | none => e.defaultSolvers

/-- The first feature of a predicate that a solver does not declare. Without an inspection only the
options count. -/
def missingFeature? (options : ConstraintOptions) (inspection : Option Inspection)
    (c : Capabilities) : Option Feature :=
  if options.methods && !c.methods then some .methods
  else if !(options.priority.getD .required).isRequired && !c.softConstraints then
    some .softConstraints
  else
    inspection.bind fun i =>
      if i.finiteDomain && !c.finiteDomains then some .finiteDomains
      else (i.types.find? fun t => !c.supportsType t).map .values

namespace Call

/-- Drops the candidates whose declarations rule the predicate out; returns the others with the
failures. -/
def filterCandidates (options : ConstraintOptions) (predicate : Expr) (solvers : List SolverId) :
    Call (List SolverId × List EngineError) := do
  let inspection := (← attempt (inspectPredicate options.context predicate)).toOption
  let logReasons := options.logReasons.getD (← get).config.logReasons
  let mut kept := []
  let mut errors := []
  for id in solvers do
    match (← get).solvers.get? id with
    | none => errors := errors ++ [.unknownSolver id]
    | some s =>
      match missingFeature? options inspection s.capabilities with
      | none => kept := kept ++ [id]
      | some feature =>
        if logReasons then Step.report (.solverRejected s.name feature)
        errors := errors ++ [.construction s.name (.noSupport feature)]
  return (kept, errors)

/-- Builds a constraint for each solver; returns those that could be built with the failures of the
others. -/
def buildCandidates (options : ConstraintOptions) (predicate : Expr) (solvers : List SolverId) :
    Call (List ConstraintId × List EngineError) := do
  let mut built := []
  let mut errors := []
  for s in solvers do
    match ← attempt (build predicate s options .always) with
    | .ok id => built := built ++ [id]
    | .error err => errors := errors ++ [err]
  return (built, errors)

/-- Switches a candidate on without propagation, and off again. -/
def trial (r : Reentry) (id : ConstraintId) : Call (Except EngineError Unit) := do
  let result ← attempt (enable r id true)
  Step.disable id
  return result

/-- Tries a candidate; its measurement if it could be switched on. Meanwhile the candidate is
current. -/
def measure (r : Reentry) (id : ConstraintId) (s : SolverId) :
    Call (Except EngineError Measurement) := do
  let saved := (← get).guards.current
  Step.modifyGuards fun g => { g with current := some (id, s) }
  let result ← trial r id
  Step.modifyGuards fun g => { g with current := saved }
  let measurement := ((← get).constraints.get? id).bind Constraint.measurement
  return result.map fun () => measurement.getD {}

/-- Measures all candidates and chooses the best; returns it with the failures. A candidate that
cannot be switched on is abandoned, except the one to keep. -/
def chooseConstraint (r : Reentry) (candidates : List ConstraintId) (keep : Option ConstraintId)
    (options : ConstraintOptions) : Call (Option ConstraintId × List EngineError) := do
  for id in candidates do
    Step.disable id
  let mut measured := []
  let mut errors := []
  for id in candidates do
    match (← get).constraints.get? id with
    | none => pure ()
    | some c =>
      match ← measure r id c.solver with
      | .ok m => measured := measured ++ [(id, m)]
      | .error err =>
        errors := errors ++ [err]
        if some id != keep then Step.abandon id
  let order := options.metrics.getD (← get).config.optimizationPriority
  match selectBest order measured with
  | none => return (none, errors)
  | some best =>
    let e ← get
    match e.constraints.get? best with
    | none => pure ()
    | some c =>
      Step.report
        (.solverSelected (e.solverName c.solver) candidates.length measured.length)
    return (some best, errors)

/-- Moves the realization of one constraint into another, whose own realization is given up. -/
def supplant (source target : ConstraintId) (old : Constraint) : Call Unit := do
  for p in old.primitives do
    Step.modifySolver old.solver fun s => s.removePrimitive p
  let winner ← constraintAt source
  modify fun e => { e with constraints := e.constraints.remove source }
  for x in winner.vars do
    Step.modifyVariable x fun v =>
      { v with constraints := SortedSet.add (v.constraints.erase source) target }
  for x in old.vars do
    if !winner.vars.contains x then Step.leave x target
  changeConstraint target fun c =>
    { c with
      solver := winner.solver
      primitives := winner.primitives
      vars := winner.vars
      isTest := winner.isTest
      measurement := winner.measurement
      enabled := false }
  Step.tick
  for x in (SortedSet.ofMembers (old.vars ++ winner.vars)).members do
    Step.detachUnused x
  let e ← get
  Step.report
    (.solverSwitched target (e.solverName old.solver) (e.solverName winner.solver))

/-- Moves the realization of one constraint into another, which keeps its identity. -/
def transplantInto (source target : ConstraintId) : Call Unit := do
  supplant source target (← constraintAt target)

/-- Selects the solver of a constraint anew. -/
def reevaluate (r : Reentry) (id : ConstraintId) : Call Unit := do
  let c ← constraintAt id
  let e ← get
  Step.report (.reevaluation id (e.solverName c.solver))
  let others := (e.candidates c.options).filter (· != c.solver)
  let (solvers, _) ← filterCandidates c.options c.predicate others
  if solvers.isEmpty then return ()
  let (built, _) ← buildCandidates c.options c.predicate solvers
  if built.isEmpty then return ()
  let (winner, _) ← chooseConstraint r (built ++ [id]) (some id) c.options
  for other in built do
    if other != id && some other != winner then Step.abandon other
  match winner with
  | some w => if w != id then transplantInto w id
  | none => pure ()
  if c.enabled then enable r id false

/-- Lets several candidates compete; abandons all but the winner and returns it with the failures. -/
def contest (r : Reentry) (options : ConstraintOptions) (candidates : List ConstraintId) :
    Call (Option ConstraintId × List EngineError) := do
  let (winner, errors) ←
    if 1 < candidates.length then chooseConstraint r candidates none options
    else pure (candidates.head?, [])
  for other in candidates do
    if some other != winner then Step.abandon other
  return (winner, errors)

/-- Switches the winner on for good, unless that is postponed. A winner that cannot be switched on is
abandoned. -/
def launch (r : Reentry) (options : ConstraintOptions) (id : ConstraintId) :
    Call (Except EngineError Unit) := do
  if options.postpone then return .ok ()
  changeConstraint id fun c => { c with initiating := true }
  let enabled ← attempt (enable r id false)
  Step.modifyConstraint id fun c => { c with initiating := false }
  match enabled with
  | .ok () => return .ok ()
  | .error err =>
    Step.abandon id
    return .error err

/-- Defers the failures of a request: to its handler if it has one, and to the caller otherwise. -/
def deferFailures (options : ConstraintOptions) (errors : List EngineError) : Step Unit :=
  Step.defer (match options.onError with
    | some handler => .handle handler errors
    | none => .rethrow (.noSolver errors))

/-- Builds, selects and switches on a constraint. When nothing comes of it, the failures are
deferred. -/
def maintain (r : Reentry) (predicate : Expr) (options : ConstraintOptions) :
    Call (Option ConstraintId) := do
  let chosen := (← get).candidates options
  let (solvers, rejected) ← filterCandidates options predicate chosen
  let (candidates, unbuilt) ← buildCandidates options predicate solvers
  let (winner, unmeasured) ← contest r options candidates
  let errors := rejected ++ unbuilt ++ unmeasured
  match winner with
  | none =>
    deferFailures options errors
    return none
  | some id =>
    match ← launch r options id with
    | .ok () => return some id
    | .error err =>
      deferFailures options (errors ++ [err])
      return none

end Call

end LiveConstraints

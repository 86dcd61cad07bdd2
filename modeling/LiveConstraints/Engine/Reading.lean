import LiveConstraints.Engine.Call
/-!
# Reading variables

A variable's value is the one its *defining* solver reports; without such a solver it is composed of
the values of its parts, or is the value stored in the variable itself.

The defining solver is the heaviest of the solvers that have a handle for the variable and, if any
constraint takes part in it at all, an enabled constraint on it. While a constraint is built or
measured, its solver defines every variable that it has a handle for. The search is remembered until
the next generation, except where several solvers have an enabled constraint on the variable: then
it is repeated on every access.

Reading therefore changes the engine, but only what is remembered.
-/

namespace LiveConstraints

/-- The first enabled constraint of a solver on a variable. -/
def Engine.enabledConstraint? (e : Engine) (v : Variable) (s : SolverId) : Option ConstraintId :=
  v.constraints.members.find? (e.enabledFor s)

/-- A binding that could define a variable: its weight, and whether a constraint makes it so. -/
def Engine.definingCandidate? (e : Engine) (v : Variable) (s : SolverId) (h : ExtVar) :
    Option (Float × Defining) :=
  let constraint := e.enabledConstraint? v s
  if constraint.isNone && !v.constraints.isEmpty then none
  else (e.solvers.get? s).map fun solver => (solver.weight, ⟨s, constraint, h⟩)

/-- The heavier of two candidates, the earlier one when neither is heavier. -/
def heavier (best : Option (Float × Defining)) (candidate : Float × Defining) :
    Option (Float × Defining) :=
  match best with
  | none => some candidate
  | some (w, d) => if w < candidate.1 then some candidate else some (w, d)

/-- The heaviest binding that could define a variable. -/
def Engine.searchDefining (e : Engine) (v : Variable) : Option Defining :=
  ((v.handles.filterMap fun (s, h) => e.definingCandidate? v s h).foldl heavier none).map Prod.snd

/-- How many of the solvers a variable is bound to have an enabled constraint on it. -/
def Engine.constrainingSolvers (e : Engine) (v : Variable) : Nat :=
  v.handles.countP fun (s, _) => (e.enabledConstraint? v s).isSome

/-- The binding in the solver of the constraint that is being built or measured. -/
def Engine.currentDefining? (e : Engine) (v : Variable) : Option Defining := do
  let (id, s) ← e.guards.current
  let h ← v.handle? s
  return ⟨s, some id, h⟩

/-- The remembered defining binding, if it may be used. -/
def Engine.rememberedDefining? (e : Engine) (v : Variable) : Option (Option Defining) :=
  if e.guards.current.isSome || v.multiSolver then none
  else
    match v.definingMemo with
    | some (generation, d) => if e.guards.looksCurrent generation then some d else none
    | none => none

namespace Step

/-- The defining binding of a variable, searched for unless it is remembered. -/
def defining (x : VarId) : Step (Option Defining) := do
  let e ← get
  match e.vars.get? x with
  | none => return none
  | some v =>
    match e.currentDefining? v with
    | some d => return some d
    | none =>
      match e.rememberedDefining? v with
      | some d => return d
      | none =>
        let d := e.searchDefining v
        let multiSolver := decide (1 < e.constrainingSolvers v)
        let definingMemo :=
          if e.guards.current.isNone && !multiSolver then some (e.guards.generation, d) else none
        modifyVariable x fun v => { v with multiSolver, definingMemo }
        return d

/-- Replaces the parts of a composite value by numbers that the parts' variables hold. -/
def composeWith (readPart : VarId → Step Value) : List (String × VarId) → Value → Step Value
  | [], v => return v
  | (name, part) :: rest, v => do
    let composed := (← readPart part).asNumber?.bind fun x => v.withPart? name x
    composeWith readPart rest (composed.getD v)

/-- Reads a variable, following at most `n` levels of parts. -/
def readWithin : Nat → VarId → Step Value
  | 0, _ => return .none
  | n + 1, x => do
    match (← get).vars.get? x with
    | none => return .none
    | some v =>
      match ← defining x with
      | some d =>
        match (← get).solvers.get? d.solver with
        | some s => return s.value d.handle
        | none => return v.shadow
      | none =>
        if v.shadow.isComposite then composeWith (readWithin n) v.parts.entries v.shadow
        else return v.shadow

/-- The value of a variable; the absent value when it does not exist. A part is younger than the
variable it belongs to, so the number of variables bounds the levels of parts. -/
def read (x : VarId) : Step Value := do
  let count := (← get).vars.cells.size
  readWithin count x

end Step

namespace Call

/-- Reads a field. -/
def readField (obj : ObjectId) (field : String) : Call Value := do
  match ← slotAt obj field with
  | .plain v => return v
  | .intercepted x => Step.read x

/-- The value that a write is compared with: the stored one, or the composed one of a variable with
parts. -/
def storedValue (x : VarId) : Call Value := do
  let v ← variableAt x
  if v.parts.isEmpty then return v.shadow else Step.read x

end Call

/-! ### Connected variables -/

/-- The variables that share a constraint with a variable, in order, repetitions included. -/
def Engine.neighbours (e : Engine) (v : Variable) : List VarId :=
  v.constraints.members.flatMap fun id =>
    match e.constraints.get? id with
    | some c => c.vars
    | none => []

/-- Extends a list of variables by those reachable from a queue, breadth first. Each of the `n`
rounds takes the first variable that is new and exists, and queues its neighbours. -/
def Engine.closureFrom (e : Engine) : Nat → List VarId → List VarId → List VarId
  | 0, _, reached => reached
  | n + 1, queue, reached =>
    match queue.dropWhile fun x => reached.contains x || !e.vars.contains x with
    | [] => reached
    | x :: rest =>
      match e.vars.get? x with
      | none => reached
      | some v => e.closureFrom n (rest ++ e.neighbours v) (reached ++ [x])

/-- The variables reachable from a variable through shared constraints, itself first. -/
def Engine.closure (e : Engine) (x : VarId) : List VarId :=
  e.closureFrom e.vars.cells.size [x] []

/-- The connected closure of a variable, computed unless it is remembered. -/
def Step.closure (x : VarId) : Step (List VarId) := do
  let e ← get
  match (e.vars.get? x).bind Variable.closureMemo with
  | some (generation, closure) =>
    if e.guards.looksCurrent generation then return closure
  | none => pure ()
  let closure := e.closure x
  modifyVariable x fun v => { v with closureMemo := some (e.guards.generation, closure) }
  return closure

/-! ### Hooks -/

/-- The hook on the field that a variable intercepts. -/
def Engine.ownHook? (e : Engine) (v : Variable) : Option PendingHook :=
  match v.key with
  | .field obj name => do
    let o ← e.objects.get? obj
    let hook ← o.hooks.find? name
    return ⟨obj, name, hook⟩
  | .part _ _ => none

/-- The hook that watches a variable: the one on its own field, or the nearest one up its chain of
parents. A chain that leads back to where it was has no end, and without a hook on it the search has
none either: `none` stands for that. No other chain is longer than the list of variables. -/
def Engine.hookOf? (e : Engine) (x : VarId) : Option (Option PendingHook) :=
  go e.vars.cells.size x
where
  /-- Follows at most `n` parents. -/
  go : Nat → VarId → Option (Option PendingHook)
    | 0, x => if e.vars.contains x then none else some none
    | n + 1, x =>
      match e.vars.get? x with
      | none => some none
      | some v =>
        match e.ownHook? v, v.parent with
        | some hook, _ => some (some hook)
        | none, some parent => go n parent
        | none, none => some none

end LiveConstraints

import LiveConstraints.Engine.Reading
/-!
# Intercepting fields

How variables come into being: a field that a predicate touches is intercepted, a part of a
composite variable gets a variable of its own, and a solver is asked once whether it can represent a
variable. `Call.touchField` and `Call.touchPart` also attach the variable to the constraint that is
being built.
-/

namespace LiveConstraints.Call

/-- Adds a variable. -/
def allocate (v : Variable) : Call VarId := do
  let x := (← get).vars.next
  modify fun e => { e with vars := e.vars.insert v }
  Step.tick
  return x

/-- The variable that intercepts a field, which is intercepted if it was not. A variable without a
parent takes the given one. -/
def fieldVariable (obj : ObjectId) (name : String) (parent : Option VarId) : Call VarId := do
  match ← slotAt obj name with
  | .intercepted x =>
    Step.modifyVariable x fun v => if v.parent.isNone then { v with parent } else v
    return x
  | .plain shadow =>
    let x ← allocate { key := .field obj name, shadow, parent }
    setSlot obj name (.intercepted x)
    return x

/-- The variable of a part of a composite variable, added if there was none. -/
def partVariable (parent : VarId) (name : String) : Call VarId := do
  match (← variableAt parent).parts.find? name with
  | some x => return x
  | none =>
    let v ← Step.read parent
    match v.part? name with
    | none => fail (.mismatch (.noPart v name))
    | some number =>
      let x ← allocate
        { key := .part parent name, shadow := .number number, parent := some parent }
      Step.modifyVariable parent fun p => { p with parts := p.parts.insert name x }
      return x

/-- Asks a solver to represent a variable, unless it was asked before. -/
def bind (x : VarId) (s : SolverId) : Call Unit := do
  if !(← variableAt x).bindings.contains s then
    let v ← Step.read x
    let label := (← get).fieldLabel x
    let handle ← callSolver s fun solver => solver.declare v label
    Step.modifyVariable x fun v => { v with bindings := v.bindings.insert s handle }
    Step.tick

/-- Makes a variable take part in a constraint and binds it to the constraint's solver. -/
def attach (id : ConstraintId) (s : SolverId) (x : VarId) : Call Unit := do
  Step.modifyVariable x fun v => { v with constraints := v.constraints.add id }
  changeConstraint id fun c =>
    if c.vars.contains x then c else { c with vars := c.vars ++ [x] }
  bind x s

/-- Intercepts a field for a constraint that is being built. -/
def touchField (id : ConstraintId) (s : SolverId) (obj : ObjectId) (name : String)
    (parent : Option VarId) : Call VarId := do
  let x ← fieldVariable obj name parent
  attach id s x
  return x

/-- Intercepts a part of a composite variable for a constraint that is being built. -/
def touchPart (id : ConstraintId) (s : SolverId) (parent : VarId) (name : String) : Call VarId := do
  let x ← partVariable parent name
  attach id s x
  return x

/-- Pins or releases every handle of a field. -/
def setReadonly (obj : ObjectId) (field : String) (on : Bool) : Call Unit := do
  match (← get).variableOf? obj field with
  | none => fail (.mismatch (.notConstrained obj field))
  | some x =>
    for (s, h) in (← variableAt x).handles do
      changeSolver s fun solver => solver.setReadonly h on

end LiveConstraints.Call

namespace LiveConstraints

/-- The handle of a variable in a solver that accepted it. -/
def Engine.handle? (e : Engine) (x : VarId) (s : SolverId) : Option ExtVar :=
  (e.vars.get? x).bind fun v => v.handle? s

end LiveConstraints

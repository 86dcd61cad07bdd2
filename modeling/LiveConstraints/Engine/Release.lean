import LiveConstraints.Engine.Interception
/-!
# Releasing constraints, bindings and variables

The reverse of interception. A constraint is switched off by switching off its primitives.
Abandoning it drops it for good, together with the bindings only it kept alive; a variable without
constraints, bindings and parts is released, and its field becomes plain again with the value it
had. Unconstraining takes the variable of a field away from everything that uses it.
-/

namespace LiveConstraints

namespace Step

/-- Switches a constraint off. Primitives that cannot be switched off are passed over. -/
def disable (id : ConstraintId) : Step Unit := do
  match (← get).constraints.get? id with
  | none => return ()
  | some c =>
    if c.enabled then
      for p in c.primitives do
        modifySolver c.solver fun s => (s.disable p).2
      modifyConstraint id fun c => { c with enabled := false }
      tick

/-- Makes a field plain if a given variable still intercepts it. -/
def restoreField (x : VarId) (obj : ObjectId) (name : String) (v : Value) : Step Unit := do
  if (← get).variableOf? obj name == some x then
    modify fun e => { e with
      objects := e.objects.modify obj fun o =>
        { o with fields := o.fields.insert name (.plain v) } }

/-- Releases a variable that nothing uses any more, and then the one it is a part of, at most `n`
levels up. -/
def releaseWithin : Nat → VarId → Step Unit
  | 0, _ => return ()
  | n + 1, x => do
    match (← get).vars.get? x with
    | none => return ()
    | some v =>
      if v.constraints.isEmpty && v.bindings.isEmpty && v.parts.isEmpty then
        let value ← read x
        modify fun e => { e with vars := e.vars.remove x }
        match v.key with
        | .field obj name => restoreField x obj name value
        | .part parent name =>
          modifyVariable parent fun p => { p with parts := p.parts.erase name }
          releaseWithin n parent
        tick

/-- Releases a variable if nothing uses it any more. -/
def releaseIfUnused (x : VarId) : Step Unit := do
  let count := (← get).vars.cells.size
  releaseWithin count x

/-- Drops the bindings of solvers that no constraint of the variable uses, and the records of
solvers that declined it; then releases the variable if nothing is left. -/
def detachUnused (x : VarId) : Step Unit := do
  let e ← get
  match e.vars.get? x with
  | none => return ()
  | some v =>
    let used := v.constraints.members.filterMap fun id => (e.constraints.get? id).map (·.solver)
    for (s, handle) in v.bindings.entries.filter fun b => b.2.isNone || !used.contains b.1 do
      modifyVariable x fun v => { v with bindings := v.bindings.erase s }
      match handle with
      | some h => modifySolver s fun solver => solver.removeVariable h
      | none => pure ()
    releaseIfUnused x

/-- Takes a variable out of a constraint's membership. -/
def leave (x : VarId) (id : ConstraintId) : Step Unit :=
  modifyVariable x fun v => { v with constraints := v.constraints.erase id }

/-- Drops a constraint for good, with the bindings that only it kept alive. -/
def abandon (id : ConstraintId) : Step Unit := do
  disable id
  match (← get).constraints.get? id with
  | none => return ()
  | some c =>
    modify fun e => { e with constraints := e.constraints.remove id }
    for p in c.primitives do
      modifySolver c.solver fun s => s.removePrimitive p
    for x in c.vars do
      leave x id
      detachUnused x
    tick

/-- Takes a variable and its parts, at most `n` levels down, away from all constraints. The solvers
keep their own variables. -/
def dropWithin : Nat → VarId → Step Unit
  | 0, _ => return ()
  | n + 1, x => do
    match (← get).vars.get? x with
    | none => return ()
    | some v =>
      modify fun e => { e with vars := e.vars.remove x }
      for id in v.constraints.members do
        modifyConstraint id fun c => { c with vars := c.vars.filter (· != x) }
      for part in v.parts.values do
        dropWithin n part
      match v.key with
      | .part parent name =>
        modifyVariable parent fun p => { p with parts := p.parts.erase name }
      | .field _ _ => pure ()

/-- Takes a variable and its parts away from all constraints. -/
def drop (x : VarId) : Step Unit := do
  let count := (← get).vars.cells.size
  dropWithin count x

end Step

namespace Call

/-- Stops intercepting a field, which keeps its value, and the fields of an object it holds. Each
level takes a variable away, so at most `n` of them are there. -/
def unconstrainWithin : Nat → ObjectId → String → Call Unit
  | 0, _, _ => return ()
  | n + 1, obj, field => do
    match ← slotAt obj field with
    | .plain _ => return ()
    | .intercepted x =>
      let v ← Step.read x
      setSlot obj field (.plain v)
      Step.drop x
      Step.tick
      match v with
      | .object inner =>
        for name in ← fieldNames inner do
          if ((← get).variableOf? inner name).isSome then
            unconstrainWithin n inner name
      | _ => return ()

/-- Stops intercepting a field. It keeps its value; an object it holds is unconstrained too. -/
def unconstrain (obj : ObjectId) (field : String) : Call Unit := do
  let count := (← get).vars.cells.size
  unconstrainWithin (count + 1) obj field

/-- Stops intercepting the fields of an object. -/
def unconstrainAll (obj : ObjectId) : Call Unit := do
  for name in ← fieldNames obj do
    if ((← get).variableOf? obj name).isSome then
      unconstrain obj name

end Call

end LiveConstraints

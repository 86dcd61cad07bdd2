import LiveConstraints.Engine.Outermost
/-!
# Edit sessions

Batches of values for a fixed set of fields. Opening a session prepares every solver that has a
handle for one of the fields; each batch then goes straight to the solvers, one call each, and what
they made of it is propagated field by field. The engine keeps the open sessions in the order they
were opened; a closed one leaves a hole, so that the numbers of the others do not change.
-/

namespace LiveConstraints

/-- How many fields a session edits. -/
def EditSession.size (s : EditSession) : Nat := s.fields.length

/-- Adds a position to the list of a solver, which is started at the end if there is none. -/
def EditSession.assign (position : Nat) (s : SolverId) :
    List (SolverId × List Nat) → List (SolverId × List Nat)
  | [] => [(s, [position])]
  | (t, members) :: rest =>
    if t = s then (t, members ++ [position]) :: rest else (t, members) :: assign position s rest

/-- A session over fields: the solvers in the order they are first met. -/
def EditSession.ofFields (fields : List (VarId × List (SolverId × ExtVar))) : EditSession :=
  let solvers := fields.zipIdx.foldl (fun solvers ((_, handles), position) =>
    handles.foldl (fun solvers (s, _) => assign position s solvers) solvers) []
  { fields, solvers }

/-- The handles of a solver at given positions. -/
def EditSession.handlesAt (session : EditSession) (s : SolverId) (members : List Nat) :
    List ExtVar :=
  members.filterMap fun i => (session.fields[i]?).bind fun (_, handles) => handles.lookup s

/-- The number of a session: the given one, or that of the last opened one. -/
def Engine.sessionIndex (e : Engine) (session : Option Nat) : Nat :=
  session.getD (e.sessions.size - 1)

/-- An open session. -/
def Engine.session? (e : Engine) (session : Option Nat) : Option EditSession :=
  (e.sessions[e.sessionIndex session]?).join

namespace Call

/-- The handles of a field that is to be edited. Every solver that was asked to represent it has to
have accepted, and to know edit sessions. -/
def editable (obj : ObjectId) (field : String) : Call (VarId × List (SolverId × ExtVar)) := do
  let refuse {α : Type} (why : EditObstacle) : Call α :=
    fail (.notEditable (obj.render ++ "." ++ field) why)
  match (← get).variableOf? obj field with
  | none => refuse .notConstrained
  | some x =>
    let v ← variableAt x
    if v.bindings.values.any Option.isNone then refuse .declined
    if v.handles.isEmpty then refuse .unbound
    for (s, _) in v.handles do
      let solver ← solverAt s
      if !solver.capabilities.edit then refuse (.noSessions solver.name)
    return (x, v.handles)

/-- Prepares the handles of a field for a session. -/
def prepareField (field : VarId × List (SolverId × ExtVar)) : Call Unit :=
  field.2.forM fun (s, h) => changeSolver s fun solver => solver.prepareEdit h

/-- Opens a session over fields of an object. -/
def openEdit (obj : ObjectId) (fields : List String) : Call EditSession := do
  let session := EditSession.ofFields (← fields.mapM (editable obj))
  session.fields.forM prepareField
  for (s, members) in session.solvers do
    askSolver s fun solver => solver.beginEdit (session.handlesAt s members)
  modify fun e => { e with sessions := e.sessions.push (some session) }
  return session

/-- Hands each solver its share of a batch, and propagates what the solvers made of it. -/
def applyBatch (r : Reentry) (session : EditSession) (values : List Value) : Call Unit := do
  for (s, members) in session.solvers do
    askSolver s fun solver => solver.resolveBatch (members.filterMap fun i => values[i]?)
  for (x, _) in session.fields do
    let v ← Step.read x
    let _ ← r.suggest x v .propagation false

/-- Assigns one value to each field of a session, in the order the fields were named. -/
def updateEdit (r : Reentry) (session : EditSession) (values : List Value) : Call Unit := do
  if values.length ≠ session.size then
    fail (.mismatch (.batchSize session.size values.length))
  topLevel r (applyBatch r session values)

/-- Releases the handles of a field after a session, in the solvers that exist. -/
def releaseField (field : VarId × List (SolverId × ExtVar)) : Step Unit :=
  field.2.forM fun (s, h) => Step.modifySolver s fun solver => solver.releaseEdit h

/-- Closes a session in solvers, also where it could not be closed in others; the failures. -/
def closeIn : List SolverId → Call (List EngineError)
  | [] => return []
  | s :: rest => do
    let result ← attempt (askSolver s Solver.endEdit)
    let failures ← closeIn rest
    match result with
    | .ok () => return failures
    | .error err => return err :: failures

/-- Closes a session in every solver. The first failure is reported. -/
def finishEdit (session : EditSession) : Call Unit := do
  session.fields.forM fun field => (releaseField field : Step Unit)
  match ← closeIn (session.solvers.map Prod.fst) with
  | [] => return ()
  | err :: _ => fail err

end Call

end LiveConstraints

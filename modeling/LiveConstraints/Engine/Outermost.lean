import LiveConstraints.Engine.Write
/-!
# The outermost call

Failures that handlers are for are never handed over in the middle of a call. They are deferred, and
the outermost call takes them up when its own work is done: handlers run then, one after another,
and what they defer is taken up in turn. Failures without a handler are collected and returned
together.

`Call.topLevel` makes a computation a call of its own. Its own failure comes before what was
deferred.
-/

namespace LiveConstraints.Call

/-- Takes up the first of the deferred work. -/
def takeDeferred : Call (Option Deferred) := do
  match (← get).deferred with
  | [] => return none
  | work :: rest =>
    modify fun e => { e with deferred := rest }
    return some work

/-- Gives failures to a handler. -/
def handle (r : Reentry) (handler : ErrorHandler) (errors : List EngineError) : Call Unit := do
  Step.record (.handler handler.tag errors)
  r.act handler.actions

/-- Takes up deferred work until none is left, at most `n` times; returns the failures that no
handler was given. -/
def drain (r : Reentry) : Nat → List EngineError → Call (List EngineError)
  | 0, failures => do
    if (← get).deferred.isEmpty then return failures else throw .tooDeep
  | n + 1, failures => do
    match ← takeDeferred with
    | none => return failures
    | some (.handle handler errors) =>
      handle r handler errors
      drain r n failures
    | some (.rethrow e) => drain r n (failures ++ [e])

/-- Takes up the deferred work, unless a call is in progress or it is being taken up already. -/
def settle (r : Reentry) : Call Unit := do
  let g := (← get).guards
  if 0 < g.nesting || g.draining then return ()
  Step.modifyGuards fun g => { g with draining := true }
  let failures ← drain r r.patience []
  Step.modifyGuards fun g => { g with draining := false }
  match EngineError.merge? failures with
  | some e => fail e
  | none => return ()

/-- Runs a computation as a call of its own: deferred work waits until it is done. -/
def topLevel {α : Type} (r : Reentry) (call : Call α) : Call α := do
  Step.modifyGuards fun g => { g with nesting := g.nesting + 1 }
  let result ← attempt call
  Step.modifyGuards fun g => { g with nesting := g.nesting - 1 }
  let settled ← attempt (settle r)
  let a ← ofExcept result
  ofExcept settled
  return a

end LiveConstraints.Call

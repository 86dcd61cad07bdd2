import LiveConstraints.Engine.Reading
/-!
# Describing an engine

What an engine shows of its inside. Describing a variable reads it, so the description may change
what the engine remembers about defining solvers, and nothing else.
-/

namespace LiveConstraints

/-- A binding with the value and the read-only flag that its solver reports. -/
def Engine.describeBinding (e : Engine) (s : SolverId) (h : ExtVar) :
    Option (ExtVar × Value × Bool) :=
  (e.solvers.get? s).map fun solver => (h, solver.value h, solver.isReadonly h)

namespace Step

/-- Describes a variable. -/
def describeVariable (x : VarId) (v : Variable) : Step VariableView := do
  let solver := (← defining x).map Defining.solver
  let e ← get
  return {
    id := x
    state := v
    bindings := v.bindings.entries.map fun (s, h) => (s, h.bind (e.describeBinding s))
    defining := solver
    multiSolver := (e.vars.get? x).any Variable.multiSolver }

/-- Describes an engine. -/
def dump : Step Dump := do
  let vars ← (← get).vars.live.mapM fun (x, v) => describeVariable x v
  let e ← get
  return { vars, constraints := e.constraints.live, solvers := e.solvers.live.map Prod.snd }

end Step

end LiveConstraints

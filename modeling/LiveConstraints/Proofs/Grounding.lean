import LiveConstraints.Proofs.Consistency
/-!
# What the engine refers to exists

Between two requests every handle that a variable is bound to exists in its solver and belongs to no
other variable. So do the primitives of every constraint, whether it is on or off, and the handles
that they mention (`Engine.Reachable.grounded`).

**Within a request this does not extend to temporary primitives.** While a constraint is rebuilt, the
variables that it newly reaches are made to keep their values. When the same write also moves the
constraint to another solver, their handles are dropped under the temporary primitives, and the
solver that is left with these fails.
-/

namespace LiveConstraints.Engine

variable {config : Setup} {e : Engine}

/-- What variables and constraints refer to exists. -/
structure Grounded (e : Engine) : Prop where
  /-- A handle that a variable is bound to exists. -/
  bound : ∀ x s h, e.Bound x s h → (e.held? s h).isSome = true
  /-- No other variable is bound to it. -/
  alone : ∀ x y s h, e.Bound x s h → e.Bound y s h → x = y
  /-- The primitives of a constraint exist. -/
  existing : ∀ id c, e.constraints.get? id = some c → ∀ p ∈ c.primitives,
    (e.clause? c.solver p).isSome = true
  /-- The handles that they mention exist. -/
  mentioned : ∀ id c, e.constraints.get? id = some c → ∀ p ∈ c.primitives, ∀ d on,
    e.clause? c.solver p = some (d, on) → ∀ h, d.Mentions h → (e.held? c.solver h).isSome = true

/-- **Nothing dangles** between two requests, whatever was asked before and however it was
answered. -/
theorem Reachable.grounded (hr : Reachable config e) : e.Grounded where
  bound := hr.sound.bound
  alone := hr.sound.injective
  existing := hr.sound.existing
  mentioned id c hc p hp d on hclause := (hr.sound.covered id c hc p hp d on hclause).held

/-- Three variables are bound and three constraints have primitives. -/
theorem grounded_threefold : ((new {}).run threefold).Grounded ∧
    ((new {}).run threefold).vars.live.map (fun x ↦ x.2.handles) =
      [[(⟨0⟩, ⟨0⟩)], [(⟨1⟩, ⟨0⟩)], [(⟨2⟩, ⟨0⟩)]] ∧
    ((new {}).run threefold).constraints.live.map (fun c ↦ c.2.primitives) =
      [[⟨0⟩], [⟨0⟩], [⟨0⟩]] :=
  ⟨reachable_threefold.grounded, by decide +kernel, by decide +kernel⟩

/-! ### A handle that a solver does not know -/

/-- The handle that a solver did not know, if that is why a request failed. -/
def unknownHandle? : Except Halt Answer → Option ExtVar
  | .error (.failed (.solver _ (.unknownVariable h))) => some h
  | _ => none

/-- A constraint whose solver is selected anew at every write, over fields of an object that is
reached through another field. -/
def restless : List Request := [
  .addSolver { Solver.relaxation 1000 1e-9 with weight := 500 } false,
  .addSolver .dataflow false,
  .createObject [("v", .number 1), ("w", .number 1)],
  .createObject [("v", .number 5), ("w", .number 9), ("t", .number 9)],
  .createObject [("p", .object ⟨0⟩)],
  .always (.binary .eq (Expr.fieldOf 1 "w") (Expr.fieldOf 1 "t")) { solver := some ⟨1⟩ },
  .always (.binary .le (Expr.fieldOf 1 "v") (.const (.number 100)))
    { solver := some ⟨0⟩, postpone := true },
  .always (.binary .eq (.member (Expr.fieldOf 2 "p") "v") (.member (Expr.fieldOf 2 "p") "w"))
    { interval := some 1 }]

theorem reachable_restless : Reachable {} ((new {}).run restless) := by
  refine (Reachable.new rfl).run ?_ (by decide +kernel)
  simp only [restless, Admissible, List.forall_mem_cons]
  exact ⟨.addSolver rfl, .addSolver rfl, .plain rfl, .plain rfl, .plain rfl, .unhandled rfl,
    .unhandled rfl, .unhandled rfl, List.forall_mem_nil _⟩

/-- A write to a reachable engine fails for a handle that the solver does not know. -/
theorem exists_unknown_handle : Reachable {} ((new {}).run restless) ∧
    unknownHandle? (((new {}).run restless).answer (.write ⟨2⟩ "p" (.object ⟨1⟩))).1 = some ⟨3⟩ :=
  ⟨reachable_restless, by decide +kernel⟩

end LiveConstraints.Engine

import LiveConstraints.Proofs.Reachable
/-!
# Constraints and the clauses of their solvers

Between two requests the constraints of an engine and the clauses of its solvers are in step. The
clauses of a constraint are on exactly when it is, a compiled predicate that is on belongs to exactly
one constraint, and an enabled constraint is met by the values of its own solver.

**Assertions are the exception.** A predicate that needs no solver is accepted as an assertion, and
an assertion is switched on without solving. When a write lets its paths lead to other objects it is
rebuilt, and may come out with a primitive; it is an assertion still, and the primitive is switched
on but nobody sees to it that it is met.
-/

namespace LiveConstraints.Engine

variable {config : Setup} {e : Engine}

/-- The constraints and the clauses of the solvers are in step. -/
structure Consistent (e : Engine) : Prop where
  /-- The clauses of a constraint are on exactly when it is. -/
  switched : ∀ id c, e.constraints.get? id = some c → ∀ p ∈ c.primitives,
    (∃ d, e.clause? c.solver p = some (d, true)) ↔ c.enabled = true
  /-- A compiled predicate that is on belongs to exactly one constraint, which is on. -/
  owned : ∀ s p d, e.clause? s p = some (d, true) → d.IsRelation → ∃! id, ∃ c,
    e.constraints.get? id = some c ∧ c.enabled = true ∧ c.solver = s ∧ p ∈ c.primitives
  /-- The clauses of an enabled constraint that is no assertion are met by the values of its
  solver. -/
  met : ∀ id c, e.constraints.get? id = some c → c.enabled = true → c.isTest = false →
    ∀ p ∈ c.primitives, ∃ d, e.clause? c.solver p = some (d, true) ∧ d.IsRelation ∧
      d.Met (e.valueIn c.solver)

/-- The invariant says so. -/
theorem consistent_of_sound (hs : e.Sound) : e.Consistent where
  switched := hs.switched
  owned s p d hclause hrelation := by
    obtain ⟨id, c, hc, rfl, hp⟩ := hs.owner s p d hclause hrelation
    have henabled := (hs.switched id c hc p hp).1 ⟨d, hclause⟩
    refine ⟨id, ⟨c, hc, henabled, rfl, hp⟩, ?_⟩
    rintro id' ⟨c', hc', -, hsolver, hp'⟩
    exact hs.unique id' c' id c hc' hc hsolver p hp' hp
  met id c hc henabled htest p hp := by
    obtain ⟨d, hclause⟩ := (hs.switched id c hc p hp).2 henabled
    exact ⟨d, hclause, (hs.covered id c hc p hp d true hclause).relation,
      hs.met id c hc henabled htest p hp d hclause⟩

/-- **Between two requests**, whatever was asked before and however it was answered, constraints and
clauses are in step. -/
theorem Reachable.consistent (h : Reachable config e) : e.Consistent := consistent_of_sound h.sound

/-- One constraint for each of the three algorithms. -/
def threefold : List Request := [
  .addSolver (.relaxation 1000 1e-9) false,
  .addSolver .dataflow false,
  .addSolver (.domainSearch 100) false,
  .createObject [("x", .number 1), ("y", .number 2), ("z", .number 3)],
  .always (.binary .ge (Expr.fieldOf 0 "x") (.const (.number 4))) { solver := some ⟨0⟩ },
  .always (.binary .eq (Expr.fieldOf 0 "y") (.const (.number 5))) { solver := some ⟨1⟩ },
  .always (.inDomain (Expr.fieldOf 0 "z") [.number 6, .number 7]) { solver := some ⟨2⟩ }]

theorem reachable_threefold : Reachable {} ((new {}).run threefold) := by
  refine (Reachable.new rfl).run ?_ (by decide +kernel)
  simp only [threefold, Admissible, List.forall_mem_cons]
  exact ⟨.addSolver rfl, .addSolver rfl, .addSolver rfl, .plain rfl, .unhandled rfl, .unhandled rfl,
    .unhandled rfl, List.forall_mem_nil _⟩

/-- Three constraints of three solvers are on and met. -/
theorem consistent_threefold : ((new {}).run threefold).Consistent ∧
    ((new {}).run threefold).constraints.live.map (fun c ↦ (c.2.enabled, c.2.primitives.length))
      = [(true, 1), (true, 1), (true, 1)] :=
  ⟨reachable_threefold.consistent, by decide +kernel⟩

/-! ### An assertion that is not met -/

/-- Whether a constraint is on although given values do not meet one of its clauses. -/
def unmet (e : Engine) (id : ConstraintId) (value : SolverId → ExtVar → Value) : Bool :=
  (e.constraints.get? id).any fun c ↦ c.enabled && c.primitives.any fun p ↦
    match e.clause? c.solver p with
    | some (d, true) => !decide (d.Met (value c.solver))
    | _ => false

theorem unmet_iff {id : ConstraintId} {value : SolverId → ExtVar → Value} :
    e.unmet id value = true ↔ ∃ c, e.constraints.get? id = some c ∧ c.enabled = true ∧
      ∃ p ∈ c.primitives, ∃ d, e.clause? c.solver p = some (d, true) ∧
        ¬ d.Met (value c.solver) := by
  simp only [unmet, Option.any_eq_true, Bool.and_eq_true, List.any_eq_true]
  refine exists_congr fun c ↦ and_congr_right fun _ ↦ and_congr_right fun _ ↦ exists_congr fun p ↦
    and_congr_right fun _ ↦ ?_
  split
  · next d hclause => simp [hclause]
  · next hother =>
    refine ⟨nofun, ?_⟩
    rintro ⟨d, hclause, -⟩
    exact absurd hclause (hother d)

/-- An assertion that compares fields of an object reached through another field, and a write that
lets it reach fields that differ. -/
def redirected : List Request := [
  .addSolver (.relaxation 1000 1e-9) false,
  .createObject [("v", .none), ("w", .none)],
  .createObject [("v", .number 1), ("w", .number 2)],
  .createObject [("p", .object ⟨0⟩)],
  .always (.binary .eq (.member (Expr.fieldOf 2 "p") "v") (.member (Expr.fieldOf 2 "p") "w"))
    { solver := some ⟨0⟩, allowTests := true },
  .write ⟨2⟩ "p" (.object ⟨1⟩)]

theorem reachable_redirected : Reachable {} ((new {}).run redirected) := by
  refine (Reachable.new rfl).run ?_ (by decide +kernel)
  simp only [redirected, Admissible, List.forall_mem_cons]
  exact ⟨.addSolver rfl, .plain rfl, .plain rfl, .plain rfl, .unhandled rfl, .plain rfl, List.forall_mem_nil _⟩

/-- The assertion is on, and so is the primitive that it came out with, but its fields differ. -/
theorem exists_unmet_assertion : Reachable {} ((new {}).run redirected) ∧
    ∃ c, ((new {}).run redirected).constraints.get? ⟨0⟩ = some c ∧ c.enabled = true ∧
      ∃ p ∈ c.primitives, ∃ d, ((new {}).run redirected).clause? c.solver p = some (d, true) ∧
        ¬ d.Met (((new {}).run redirected).valueIn c.solver) :=
  ⟨reachable_redirected, unmet_iff.1 (by decide +kernel)⟩

end LiveConstraints.Engine

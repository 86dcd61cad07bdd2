import LiveConstraints.Proofs.Coherence.Answering
import LiveConstraints.Proofs.Consistency
/-!
# Constraints and what fields report

A field reports the value of the solver that defines it, and a field that an enabled constraint mentions is
defined by some solver (`Engine.exists_defining`). So a constraint is met by what fields report if its own
solver defines each field that it mentions or holds the same value for it as the other solvers
(`Engine.Reachable.converged`).

**Fields that solvers disagree on are the exception.** When a constraint is switched on, its solver
moves its own copies of the fields, and a copy that moved is passed on if the field reports another
value than before. A field that a heavier solver defines reports what it did, so the other solvers
hear nothing of the move, and the constraint is on without being met.
-/

namespace LiveConstraints.Engine

variable {config : Setup} {e : Engine} {id : ConstraintId} {c : Constraint} {d : Demand} {x : VarId}
  {v : Variable} {s : SolverId} {h : ExtVar} {obj : ObjectId} {field : String}

/-- All solvers that a variable is bound to hold the same value for it. -/
def Agreed (e : Engine) (x : VarId) : Prop :=
  ∀ s h s' h', e.Bound x s h → e.Bound x s' h' → e.valueIn s h = e.valueIn s' h'

/-- A solver speaks for a field with one of its variables: it defines the field, or all solvers agree on
it. What is remembered of the field is assumed not to be so old that its generation came round. -/
def SpeaksFor (e : Engine) (s : SolverId) (h : ExtVar) (obj : ObjectId) (field : String) : Prop :=
  e.definedAs? obj field = some (s, h) ∨ ∃ x v, e.variableOf? obj field = some x ∧
    e.vars.get? x = some v ∧ e.Recent v ∧ e.Bound x s h ∧ e.Agreed x

/-- A solver speaks for the fields that a clause mentions, and they report the given values. -/
def Reports (e : Engine) (s : SolverId) (d : Demand) (report : ExtVar → Value) : Prop :=
  ∀ h, d.Mentions h → ∃ obj field,
    e.SpeaksFor s h obj field ∧ e.reported? obj field = some (report h)

/-- A variable is defined by some solver that it is bound to, if one has an enabled constraint on it. -/
theorem exists_defining (hr : Reachable config e) (hv : e.vars.get? x = some v) (hrecent : e.Recent v)
    (hhandle : v.handle? s = some h) (henabled : (e.enabledConstraint? v s).isSome = true) :
    ∃ d, (Step.defining x e).1 = some d ∧ e.Bound x d.solver d.handle ∧
      ∃ solver, e.solvers.get? d.solver = some solver := by
  have hcurrent : e.guards.current = none := by rw [hr.atRest.guards]
  obtain ⟨solver, hsolver⟩ : ∃ solver, e.solvers.get? s = some solver := by
    have hheld := hr.sound.bound x s h ⟨v, hv, hhandle⟩
    exact (Option.bind_eq_some_iff.1 (Option.some_get hheld).symm).imp fun _ ↦ And.left
  obtain ⟨d, hsearch⟩ := exists_searchDefining (Variable.mem_handles hhandle) hsolver henabled
  obtain ⟨hmem, -, hregistered, -⟩ := of_searchDefining hsearch
  have hbound : e.Bound x d.solver d.handle :=
    ⟨v, hv, Variable.handle?_of_mem (hr.sound.ordered x v hv) hmem⟩
  obtain ⟨hfound | ⟨hoff, -⟩, -⟩ := hr.driven.coherent.defining hcurrent hv hrecent
  · exact ⟨d, hfound.trans hsearch, hbound, hregistered⟩
  · rw [hoff s] at henabled
    cases henabled

/-- A field reports what a solver holds that speaks for it, by a clause of an enabled constraint. -/
theorem reported?_of_speaksFor (hr : Reachable config e) (hc : e.constraints.get? id = some c)
    (henabled : c.enabled = true) (hcovers : e.Covers id c.solver c.vars d) (hmentions : d.Mentions h)
    (hspeaks : e.SpeaksFor c.solver h obj field) :
    e.reported? obj field = some (e.valueIn c.solver h) := by
  obtain hdefined | ⟨x, v, hx, hv, hrecent, hbound, hagreed⟩ := hspeaks
  · obtain ⟨solver, hsolver⟩ : ∃ solver, e.solvers.get? c.solver = some solver := by
      have hheld := hcovers.held h hmentions
      exact (Option.bind_eq_some_iff.1 (Option.some_get hheld).symm).imp fun _ ↦ And.left
    exact reported?_of_definedAs? hdefined hsolver
  · -- the clause makes the variable take part in the constraint, so some solver defines it
    obtain ⟨w, hw, hmember⟩ := (hcovers.listed h x hmentions hbound).1
    obtain rfl := Option.some.inj (hv.symm.trans hw)
    have hon : (e.enabledConstraint? v c.solver).isSome = true :=
      List.find?_isSome.2 ⟨id, hmember, by simp [enabledFor, hc, henabled]⟩
    obtain ⟨_, hw', hhandle⟩ := hbound
    obtain rfl := Option.some.inj (hv.symm.trans hw')
    obtain ⟨d', hdefining, hbound', solver, hsolver⟩ := exists_defining hr hv hrecent hhandle hon
    have hdefined : e.definedAs? obj field = some (d'.solver, d'.handle) := by
      rw [definedAs?, hx, Option.bind_some, hdefining, Option.map_some]
    rw [reported?_of_definedAs? hdefined hsolver, hagreed _ _ _ _ hbound' ⟨v, hv, hhandle⟩]

/-- **Convergence.** Each clause of an enabled constraint that is no assertion is on, and met by what
the fields report that it mentions, if the constraint's solver defines them or all solvers agree on
them. -/
theorem Reachable.converged (hr : Reachable config e) (hc : e.constraints.get? id = some c)
    (henabled : c.enabled = true) (htest : c.isTest = false) :
    ∀ p ∈ c.primitives, ∃ d, e.clause? c.solver p = some (d, true) ∧
      ∀ report, e.Reports c.solver d report → d.Met report := by
  intro p hp
  obtain ⟨d, hclause, -, hmet⟩ := (consistent_of_sound hr.sound).met id c hc henabled htest p hp
  have hcovers := hr.sound.covered id c hc p hp d true hclause
  refine ⟨d, hclause, fun report hreports ↦ hmet.congr fun h hh ↦ ?_⟩
  obtain ⟨obj, field, hspeaks, hreported⟩ := hreports h hh
  exact Option.some.inj
    ((reported?_of_speaksFor hr hc henabled hcovers hh hspeaks).symm.trans hreported)

/-- The only constraint of the first solver, on a field that the solver defines. -/
theorem converged_threefold : ((new {}).run threefold).reported? ⟨0⟩ "x" = some (.number 4) ∧
    ((new {}).run threefold).definedAs? ⟨0⟩ "x" = some (⟨0⟩, ⟨0⟩) ∧
    ∃ c, ((new {}).run threefold).constraints.get? ⟨0⟩ = some c ∧ c.primitives.length = 1 ∧
      ∀ p ∈ c.primitives, ∃ d, ((new {}).run threefold).clause? c.solver p = some (d, true) ∧
        ∀ report, ((new {}).run threefold).Reports c.solver d report → d.Met report := by
  have hlookup : (((new {}).run threefold).constraints.get? ⟨0⟩).map
      (fun c ↦ (c.enabled, c.isTest, c.primitives.length)) = some (true, false, 1) := by
    decide +kernel
  obtain ⟨c, hc, hfields⟩ := Option.map_eq_some_iff.1 hlookup
  obtain ⟨henabled, htest, hlength⟩ : c.enabled = true ∧ c.isTest = false ∧ c.primitives.length = 1 := by
    simpa using hfields
  refine ⟨by decide +kernel, by decide +kernel, c, hc, hlength, ?_⟩
  exact reachable_threefold.converged hc henabled htest

/-! ### A field that two solvers share -/

/-- Whether every request of a run succeeds. -/
def succeedsAll (e : Engine) : List Request → Bool
  | [] => true
  | request :: rest =>
    match e.answer request with
    | (.ok _, e) => e.succeedsAll rest
    | _ => false

/-- The heavier solver keeps two fields equal, and a bound is put on one of them in the other. -/
def shared : List Request := [
  .addSolver (.relaxation 1000 1e-9) false,
  .addSolver .dataflow false,
  .createObject [("x", .number 8), ("y", .number 8)],
  .always (.binary .eq (Expr.fieldOf 0 "x") (Expr.fieldOf 0 "y")) { solver := some ⟨1⟩ },
  .always (.binary .ge (Expr.fieldOf 0 "x") (.const (.number 100))) { solver := some ⟨0⟩ }]

theorem reachable_shared : Reachable {} ((new {}).run shared) := by
  refine (Reachable.new rfl).run ?_ (by decide +kernel)
  simp only [shared, Admissible, List.forall_mem_cons]
  exact ⟨.addSolver rfl, .addSolver rfl, .plain rfl, .unhandled rfl, .unhandled rfl, List.forall_mem_nil _⟩

/-- Every request succeeded and the bound is on, but what the field reports does not meet it. -/
theorem exists_unmet_report : Reachable {} ((new {}).run shared) ∧
    (new {}).succeedsAll shared = true ∧
    ((new {}).run shared).reported? ⟨0⟩ "x" = some (.number 8) ∧
    ∃ c, ((new {}).run shared).constraints.get? ⟨1⟩ = some c ∧ c.enabled = true ∧
      ∃ p ∈ c.primitives, ∃ d, ((new {}).run shared).clause? c.solver p = some (d, true) ∧
        ¬ d.Met fun _ ↦ .number 8 := by
  have hunmet : ((new {}).run shared).unmet ⟨1⟩ (fun _ _ ↦ .number 8) = true := by decide +kernel
  have hmissed := unmet_iff.1 hunmet
  exact ⟨reachable_shared, by decide +kernel, by decide +kernel, hmissed⟩

end LiveConstraints.Engine

import LiveConstraints.Proofs.Quiescence.Answering
import LiveConstraints.Proofs.Reselecting.Flags
import LiveConstraints.Proofs.Reselecting.Tidying
/-!
# Selecting a solver anew preserves identity

Whichever candidate wins and whichever fail, the constraints of the engine are those that it had, and
a selection that succeeds leaves its constraint on or off as it was. It leaves no binding of a losing or
replaced solver behind either (`Call.identity_of_select`).

The last two depend on what happens in the course of the selection: a constraint that has to be rebuilt
because a path leads elsewhere, and cannot be, has let its variables go without detaching them
(`Call.exists_loose_of_select`).
-/

namespace LiveConstraints

open Engine

variable {e e' : Engine} {id : ConstraintId} {r : Reentry} {n : Nat} {select : Reentry → Call Unit}

namespace Engine

/-- Every binding of every live variable belongs to a solver that a constraint of the variable uses. -/
def Clean (e : Engine) : Prop := ∀ y b, ¬ e.Loose y b

/-- The loose bindings. -/
def looseBindings (e : Engine) : List (VarId × SolverId × Option ExtVar) :=
  e.vars.live.flatMap fun (x, v) =>
    (v.bindings.entries.filter fun b => v.constraints.members.all fun id =>
      (e.constraints.get? id).all fun c => c.solver != b.1).map fun b => (x, b)

theorem mem_looseBindings {y : VarId} {b : SolverId × Option ExtVar} :
    (y, b) ∈ e.looseBindings ↔ e.Loose y b := by
  simp only [looseBindings, List.mem_flatMap, Prod.exists, Arena.mem_live, List.mem_map,
    List.mem_filter, List.all_eq_true, Option.all_eq_true, bne_iff_ne, Prod.mk.injEq, Loose]
  constructor
  · rintro ⟨x, v, hv, s, h, ⟨hb, hunused⟩, rfl, rfl, rfl⟩
    exact ⟨v, hv, hb, hunused⟩
  · rintro ⟨v, hv, hb, hunused⟩
    exact ⟨y, v, hv, b.1, b.2, ⟨hb, hunused⟩, rfl, rfl⟩

theorem clean_iff : e.Clean ↔ e.looseBindings = [] := by
  rw [List.eq_nil_iff_forall_not_mem, Prod.forall]
  exact forall₂_congr fun y b ↦ not_congr mem_looseBindings.symm

instance (e : Engine) : Decidable e.Clean := decidable_of_iff (e.looseBindings = []) clean_iff.symm

theorem unhandled_iff :
    e.Unhandled ↔ ∀ p ∈ e.constraints.live, p.2.options.onError.isNone = true := by
  simp only [Unhandled, Prod.forall, Arena.mem_live, Option.isNone_iff_eq_none]

instance (e : Engine) : Decidable e.Unhandled := decidable_of_iff _ unhandled_iff.symm

end Engine

namespace Call

/-- A solver is selected anew for a constraint, in the course of another call or by a call of its
own. -/
def Selects (id : ConstraintId) (select : Reentry → Call Unit) : Prop :=
  select = (reevaluate · id) ∨ select = (reselect · id)

theorem Selects.below {r' : Reentry} (h : Selects id select) (hr : r.Below r') :
    Below (select r) (select r') := by
  obtain rfl | rfl := h
  · exact below_reevaluate hr id
  · exact below_reselect hr id

/-- Selecting stays within a relation for which deferred work is no matter. -/
theorem Selects.within {R : Engine → Engine → Prop} [IsPreorder Engine R] (h : Selects id select)
    (hr : r.Remains R) (hreevaluate : ∀ {e}, Within R e (reevaluate r id))
    (haside : ∀ {e : Engine} guards deferred journal, R e { e with guards, deferred, journal }) :
    Within R e (select r) := by
  obtain rfl | rfl := h
  · exact hreevaluate
  · exact hr.topLevel haside hreevaluate

theorem sameRoster_of_select (h : Selects id select) (strict : Bool) (n : Nat) :
    Within SameRoster e (select (.limited strict n)) :=
  h.within (Reentry.remains_sameRoster strict n)
    (sameRoster_reevaluate (Reentry.remains_sameRoster strict n) id) fun _ _ _ ↦ sameRoster_of_constraints rfl

theorem tidies_of_select (h : Selects id select) (n : Nat) :
    Within Tidies e (select (.limited true n)) :=
  h.within (Reentry.remains_tidies n) (stays_reevaluate (Reentry.remains_tidies n).stays id)
    fun _ _ _ ↦ tidies_aside rfl rfl rfl

/-- What is off stays off when a solver is selected for it. -/
theorem off_of_reevaluate (hrun : reevaluate r id e = (.ok (), e')) (hoff : e.Off id) : e'.Off id := by
  obtain ⟨⟨_, hfailed⟩, -⟩ | ⟨-, hsettings⟩ | ⟨c, e₁, hc, hrefits, hswitch⟩ :=
    (yields_reevaluate id).of_eq hrun nofun
  · cases hfailed
  · exact hsettings.off hoff
  · rw [hoff c hc] at hswitch
    cases hswitch
    exact hrefits.off hoff

/-- A selection that succeeds leaves its constraint on or off. -/
theorem enabled_of_select (h : Selects id select) (hun : e.Unhandled)
    (hrun : select (.limited true n) e = (.ok (), e')) : (e.On id → e'.On id) ∧ (e.Off id → e'.Off id) := by
  have hr := Reentry.remains_staysOn n
  obtain rfl | rfl := h
  · exact ⟨(staysOn_of_reevaluate hr hrun).on hun id (Set.notMem_empty id), off_of_reevaluate hrun⟩
  · obtain ⟨e₁, hreevaluate, hsettle⟩ := of_topLevel_ok hrun
    have hsettings : SameSettings _ e' :=
      (hr.settle fun _ _ _ ↦ sameSettings_of_constraints rfl).of_ok hsettle
    have hon : e.On id → e₁.On id :=
      (staysOn_of_reevaluate hr hreevaluate).on hun id (Set.notMem_empty id)
    have hoff : e.Off id → e₁.Off id := fun hoff ↦ off_of_reevaluate hreevaluate hoff
    exact ⟨fun h ↦ hsettings.resets.on (Set.notMem_empty id) (hon h), fun h ↦ hsettings.off (hoff h)⟩

/-- **Selecting preserves identity.** Unless a hook or handler makes requests, the constraints are
afterwards those that there were. If moreover no call that passes values on or rebuilds a constraint
fails on the way, no binding is left behind that no constraint of its variable uses, and a selection
that succeeds leaves the constraint on or off. -/
theorem identity_of_select (hselect : Selects id select) (ht : e.Tied)
    (hreturns : (select (.limited false n) e).1 ≠ .error .tooDeep) :
    (∀ i, (select (.ofDepth n) e).2.Live i ↔ e.Live i) ∧
    ((select (.limited true n) e).1 ≠ .error .tooDeep →
      (e.Clean → (select (.ofDepth n) e).2.Clean) ∧
      (e.Unhandled → (select (.ofDepth n) e).1 = .ok () →
        ((select (.ofDepth n) e).2.constraints.get? id).map Constraint.enabled
          = (e.constraints.get? id).map Constraint.enabled)) := by
  have hlimited : ∀ strict, (select (.limited strict n) e).1 ≠ .error .tooDeep →
      select (.ofDepth n) e = select (.limited strict n) e := fun strict hne ↦
    hselect.below (Reentry.below_limited strict n) e hne
  have hlive : ∀ i, (select (.ofDepth n) e).2.Live i ↔ e.Live i := by
    rw [hlimited false hreturns]
    intro i
    have hi := sameRoster_of_select hselect false n hreturns i
    rw [Live, Live, ← Option.isSome_iff_exists, ← Option.isSome_iff_exists, ← Option.isSome_map, hi,
      Option.isSome_map]
  refine ⟨hlive, fun hstrict ↦ ?_⟩
  have hid := hlive id
  rw [hlimited true hstrict] at hid ⊢
  refine ⟨fun hclean y b hloose ↦ hclean y b ((tidies_of_select hselect n hstrict ht).2 y b hloose),
    fun hun hok ↦ ?_⟩
  obtain ⟨hon, hoff⟩ := enabled_of_select hselect hun (Prod.ext hok rfl)
  cases hc : e.constraints.get? id with
  | none =>
    refine Option.map_eq_none_iff.2 (Option.eq_none_iff_forall_not_mem.2 fun c' hc' ↦ ?_)
    obtain ⟨c, hc'⟩ := hid.1 ⟨c', hc'⟩
    cases hc.symm.trans hc'
  | some c =>
    obtain ⟨c', hc'⟩ := hid.2 ⟨c, hc⟩
    rw [hc', Option.map_some, Option.map_some]
    cases henabled : c.enabled with
    | true =>
      obtain ⟨c'', hc'', hon⟩ := hon ⟨c, hc, henabled⟩
      cases hc'.symm.trans hc''
      rw [hon]
    | false => rw [hoff (fun c'' hc'' ↦ by cases hc.symm.trans hc''; exact henabled) c' hc']

/-- A constraint for which two solvers compete. -/
def contested : List Request := [
  .addSolver (.relaxation 1000 1e-9) false,
  .addSolver .dataflow false,
  .createObject [("x", .number 1), ("y", .number 1)],
  .always (.binary .eq (Expr.fieldOf 0 "x") (Expr.fieldOf 0 "y")) {}]

/-- The constraint is where it was, on as it was, and no binding is loose. -/
theorem identity_of_select_contested :
    (∀ i, (reselect (.ofDepth 20) ⟨0⟩ ((new {}).run contested)).2.Live i ↔
      ((new {}).run contested).Live i) ∧
    (reselect (.ofDepth 20) ⟨0⟩ ((new {}).run contested)).2.Clean ∧
    ((reselect (.ofDepth 20) ⟨0⟩ ((new {}).run contested)).2.constraints.get? ⟨0⟩).map
      Constraint.enabled = some true := by
  have hdriven : Driven {} ((new {}).run contested) := .run .new (by decide +kernel)
  have hok : (reselect (.ofDepth 20) ⟨0⟩ ((new {}).run contested)).1 = .ok () := by
    have hsucceeds : (reselect (.ofDepth 20) ⟨0⟩ ((new {}).run contested)).1.isOk = true := by
      decide +kernel
    revert hsucceeds
    cases (reselect (.ofDepth 20) ⟨0⟩ ((new {}).run contested)).1 with
    | ok _ => exact fun _ ↦ rfl
    | error _ => nofun
  obtain ⟨hlive, hrest⟩ := identity_of_select (n := 20) (.inr rfl : Selects ⟨0⟩ (reselect · ⟨0⟩))
    hdriven.tied (ne_tooDeep_of_returned (by decide +kernel))
  obtain ⟨hclean, henabled⟩ := hrest (ne_tooDeep_of_returned (by decide +kernel))
  exact ⟨hlive, hclean (by decide +kernel),
    (henabled (by decide +kernel) hok).trans (by decide +kernel)⟩

/-- Three domain constraints over what a field refers to, and a relation over a path through that field. The
two solvers of the first two disagree about the field. -/
def torn : List Request := [
  .addSolver { Solver.domainSearch 100000 with weight := 300 } false,
  .addSolver (.domainSearch 100000) false,
  .addSolver (.relaxation 1000 1e-9) false,
  .createObject [("k", .number 5), ("v", .number 1)],
  .createObject [("k", .number 5)],
  .createObject [("x", .number 0), ("y", .number 1)],
  .setDefaultSolvers [⟨0⟩, ⟨1⟩],
  .always (.inDomain (Expr.fieldOf 2 "x") [.object ⟨0⟩]) { solver := some ⟨0⟩, postpone := true },
  .always (.inDomain (Expr.fieldOf 2 "x") [.object ⟨1⟩]) { solver := some ⟨1⟩, postpone := true },
  .write ⟨2⟩ "x" (.object ⟨0⟩),
  .always (.inDomain (.member (Expr.fieldOf 2 "x") "k") [.number 5])
    { metrics := some [.squaredDistance] },
  .enable ⟨1⟩,
  .always (.binary .ge (.binary .add (.member (Expr.fieldOf 2 "x") "v") (Expr.fieldOf 2 "y"))
    (.const (.number 0))) { solver := some ⟨2⟩ }]

/-- No binding is loose, and after selecting anew one is. -/
theorem exists_loose_of_select : Driven {} ((new {}).run torn) ∧ ((new {}).run torn).Clean ∧
    ¬ (((new {}).run torn).answer (.reevaluate ⟨2⟩)).2.Clean :=
  ⟨.run .new (by decide +kernel), by decide +kernel, by decide +kernel⟩

end Call

end LiveConstraints

import LiveConstraints.Proofs.Reselecting.Nesting
/-!
# What stays on while a solver is selected anew

Switching a constraint on, whether it succeeds or not, leaves on what was on besides, if the ways back
into the engine do (`Engine.StaysOn`). Rebuilding and selecting switch their own constraint off for a
while, so of them it is claimed where they succeed, for then the constraint is on again. By strict ways
back every call on the way succeeds, and where no handler takes failures a write that succeeds has left
nothing out (`Call.of_suggest_ok`).

So a selection that succeeds leaves the constraint as it was, on or off
(`Call.enabled_reevaluate`).
-/

namespace LiveConstraints

open Engine

variable {α : Type} {e e' : Engine} {r : Reentry} {id : ConstraintId} {S : Set ConstraintId}

namespace Engine

/-- A constraint is on. -/
def On (e : Engine) (id : ConstraintId) : Prop :=
  ∃ c, e.constraints.get? id = some c ∧ c.enabled = true

/-- No constraint has a handler for failures. -/
def Unhandled (e : Engine) : Prop :=
  ∀ id c, e.constraints.get? id = some c → c.options.onError = none

/-- Constraints neither come nor go and, if none has a handler, those that are on stay on, up to some. -/
structure StaysOn (S : Set ConstraintId) (e e' : Engine) : Prop where
  roster : SameRoster e e'
  on : e.Unhandled → ∀ id ∉ S, e.On id → e'.On id

theorem SameRoster.unhandled (h : SameRoster e e') (hun : e.Unhandled) : e'.Unhandled := by
  intro id c' hc'
  have hmap := h id
  rw [hc', Option.map_some] at hmap
  obtain ⟨c, hc, heq⟩ := Option.map_eq_some_iff.1 hmap.symm
  rw [← heq]
  exact hun id c hc

instance : IsPreorder Engine (StaysOn S) where
  refl e := ⟨refl_of SameRoster e, fun _ _ _ h ↦ h⟩
  trans _ _ _ h h' := ⟨trans_of SameRoster h.roster h'.roster,
    fun hun id hid hon ↦ h'.on (h.roster.unhandled hun) id hid (h.on hun id hid hon)⟩

theorem Resets.on (h : Resets S e e') (hid : id ∉ S) (hon : e.On id) : e'.On id := by
  obtain ⟨c, hc, hon⟩ := hon
  have hmap := h id hid
  rw [hc, Option.map_some] at hmap
  obtain ⟨c', hc', heq⟩ := Option.map_eq_some_iff.1 hmap
  exact ⟨c', hc', (congrArg (·.2.1) heq).trans hon⟩

theorem Adjusts.staysOn (h : Adjusts id e e') : StaysOn {id} e e' :=
  ⟨h.roster, fun _ _ hid ↦ h.resets.on hid⟩

theorem SameSettings.staysOn (h : SameSettings e e') : StaysOn S e e' :=
  ⟨h.roster, fun _ _ _ ↦ h.resets.on (Set.notMem_empty _)⟩

theorem staysOn_of_constraints (h : e'.constraints = e.constraints) : StaysOn S e e' :=
  (sameSettings_of_constraints h).staysOn

theorem StaysOn.mono {S' : Set ConstraintId} (h : StaysOn S e e') (hS : S ⊆ S') : StaysOn S' e e' :=
  ⟨h.roster, fun hun id hid ↦ h.on hun id fun hmem ↦ hid (hS hmem)⟩

/-- The constraint that was switched is on as well. -/
theorem StaysOn.of_on (h : StaysOn {id} e e') (hon : e.Unhandled → e'.On id) : StaysOn ∅ e e' := by
  refine ⟨h.roster, fun hun k _ hk ↦ ?_⟩
  by_cases heq : k = id
  · rw [heq]
    exact hon hun
  · exact h.on hun k heq hk

instance : Passing (StaysOn S) where
  defining x := staysOn_of_constraints (Step.recalls_defining x).constraints
  beside _ _ _ constraints _ _ _ _ := staysOn_of_constraints constraints
  current h := ⟨h.roster, h.on⟩
  annotate k f core := SameSettings.staysOn <| Arena.map_get?_modify fun c _ ↦ by
    rw [Constraint.setting, (core c).solver, (core c).enabled, (core c).options, Constraint.setting]
  operate _ _ _ := staysOn_of_constraints rfl
  defer _ := staysOn_of_constraints rfl
  recordHook _ _ _ := staysOn_of_constraints rfl

instance : Heedless (StaysOn S) where
  store _ _ := .lift (staysOn_of_constraints rfl)
  guards _ _ := staysOn_of_constraints rfl
  bumpFor x origin d := (Call.ordinary_bumpFor (R := SameSettings) x origin d).mono
    fun _ ↦ SameSettings.staysOn
  unbump s xs := (Step.ordinary_unbump (R := SameSettings) s xs).mono fun _ ↦ SameSettings.staysOn

end Engine

namespace Call

/-! ### Switching on -/

theorem staysOn_enable (hr : r.Stays (StaysOn {id})) (compare : Bool) :
    Within (StaysOn {id}) e (enable r id compare) :=
  within_enable_of_adjusts Adjusts.staysOn fun xs ↦ stays_reconcile hr compare xs

/-- A constraint that was activated is on. -/
theorem on_of_activate {c : Constraint} (hrun : activate id c e = (.ok (), e')) : e'.On id := by
  obtain ⟨_, e₁, -, hrun⟩ := of_bind_ok hrun
  obtain ⟨_, e₂, hchange, hrun⟩ := of_bind_ok hrun
  have hon : e₂.On id := by
    obtain ⟨c₁, hc₁, hmodify⟩ := of_lookup_bind_ok (constraintAt_eq id e₁) hchange
    cases hmodify
    refine ⟨_, get?_modify_constraint hc₁, ?_⟩
    rw [if_pos rfl]
  have hsolve : SameSettings e₂ e' := by
    split at hrun
    · exact (operating_askSolver fun solver ↦ solver.sameFlags_solve.operates).of_ok hrun
    · cases hrun
      exact refl_of SameSettings e'
  exact hsolve.resets.on (Set.notMem_empty id) hon

/-- A constraint that was switched on is on. -/
theorem on_of_enable (hr : r.Remains (StaysOn ∅)) {compare : Bool} (hun : e.Unhandled)
    (hrun : enable r id compare e = (.ok (), e')) : e'.On id := by
  obtain ⟨c, hc, hrun⟩ := of_lookup_bind_ok (constraintAt_eq id e) hrun
  split at hrun
  · next hon =>
    cases hrun
    exact ⟨c, hc, hon⟩
  dsimp only at hrun
  split at hrun
  · cases hrun
  obtain ⟨_, e₁, htick, hrun⟩ := of_bind_ok hrun
  obtain ⟨result, e₂, hactivate, hrun⟩ := of_bind_ok hrun
  have h₁ : SameRoster e e₁ := by
    cases htick
    exact sameRoster_of_constraints rfl
  have h₂ : SameRoster e₁ e₂ := (adjusts_activate id c).attempt.of_ok hactivate |>.roster
  cases result with
  | error err =>
    obtain ⟨_, e₃, -, hfail⟩ := of_bind_ok hrun
    cases hfail
  | ok _ =>
    have hrest : Within (StaysOn ∅) e₂ (do
        let elapsedMs ← Step.elapsed
        Step.reportSolve (some id) c.solver .enable
        let changes ← reconcile r compare (← constraintAt id).vars
        changeConstraint id fun c => { c with measurement := some { elapsedMs, changes } }) := by
      refine .lift_bind Step.operating_elapsed fun elapsedMs e₃ _ _ ↦ ?_
      refine .lift_bind (Step.operating_reportSolve _ _ _) fun _ e₄ _ _ ↦ ?_
      refine .constraintAt_bind fun c₄ _ ↦ (stays_reconcile hr.stays compare c₄.vars).bind ?_
      exact fun changes e₅ _ _ ↦ stays_changeConstraint fun _ ↦ .bookkeeping
    exact (hrest.of_ok hrun).on (h₂.unhandled (h₁.unhandled hun)) id (Set.notMem_empty id)
      (on_of_activate (of_attempt_ok hactivate))

/-- A constraint that was switched on is on, and so is what was on before. -/
theorem staysOn_of_enable (hr : r.Remains (StaysOn ∅)) {compare : Bool}
    (hrun : enable r id compare e = (.ok (), e')) : StaysOn ∅ e e' := by
  have hr' : r.Remains (StaysOn {id}) := hr.mono fun h ↦ h.mono (Set.empty_subset _)
  exact ((staysOn_enable hr'.stays compare).of_ok hrun).of_on fun hun ↦ on_of_enable hr hun hrun

/-! ### Rebuilding and selecting -/

theorem staysOn_of_enableTransplanted (hr : r.Remains (StaysOn ∅)) {s : SolverId}
    {ps : List Primitive} (hrun : enableTransplanted r id s ps e = (.ok (), e')) :
    StaysOn ∅ e e' ∧ (e.Unhandled → e'.On id) := by
  have hr' : r.Remains (StaysOn {id}) := hr.mono fun h ↦ h.mono (Set.empty_subset _)
  obtain ⟨result, e₁, hfirst, hrun⟩ := of_bind_ok hrun
  have h₁ : StaysOn {id} e e₁ := (staysOn_enable hr'.stays false).attempt.of_ok hfirst
  cases result with
  | ok _ =>
    cases hrun
    have hfirst := of_attempt_ok hfirst
    exact ⟨staysOn_of_enable hr hfirst, fun hun ↦ on_of_enable hr hun hfirst⟩
  | error err =>
    obtain ⟨_, e₂, hdisable, hrun⟩ := of_bind_ok hrun
    obtain ⟨_, e₃, hweaken, hrun⟩ := of_bind_ok hrun
    have h₂ : StaysOn {id} e₁ e₂ := by
      cases hdisable
      exact (Step.adjusts_disable id).1.staysOn
    have h₃ : StaysOn {id} e₂ e₃ := (ordinary_weaken (R := SameSettings)).of_ok hweaken |>.staysOn
    have hbefore : StaysOn {id} e e₃ := trans_of (StaysOn {id}) h₁ (trans_of (StaysOn {id}) h₂ h₃)
    have hon : e.Unhandled → e'.On id :=
      fun hun ↦ on_of_enable hr (hbefore.roster.unhandled hun) hrun
    have hothers := trans_of (StaysOn {id}) hbefore ((staysOn_enable hr'.stays false).of_ok hrun)
    exact ⟨hothers.of_on hon, hon⟩

theorem staysOn_of_recalculate (hr : r.Remains (StaysOn ∅))
    (hrun : recalculate r id e = (.ok (), e')) : StaysOn ∅ e e' := by
  rw [recalculate_eq] at hrun
  obtain ⟨c, hc, hrun⟩ := of_lookup_bind_ok (constraintAt_eq id e) hrun
  split at hrun
  · cases hrun
    exact refl_of (StaysOn ∅) e
  obtain ⟨reached, e₁, hreroute, hrun⟩ := of_bind_ok hrun
  obtain ⟨ps, e₂, htransplants, hrun⟩ := of_bind_ok hrun
  obtain ⟨result, e₃, henable, hrun⟩ := of_bind_ok hrun
  obtain ⟨_, e₄, hwithdraw, hrun⟩ := of_bind_ok hrun
  have h₁ : StaysOn {id} e e₁ := (adjusts_reroute id c).of_ok hreroute |>.staysOn
  have h₂ : StaysOn {id} e e₂ :=
    trans_of (StaysOn {id}) h₁ ((operating_transplants _ _).of_ok htransplants)
  have h₄ : SameSettings e₃ e₄ := ordinary_withdraw.of_ok hwithdraw
  cases result with
  | error err => cases hrun
  | ok _ =>
    cases hrun
    obtain ⟨h₃, hon⟩ := staysOn_of_enableTransplanted hr (of_attempt_ok henable)
    have hothers : StaysOn {id} e e₃ := trans_of (StaysOn {id}) h₂ (h₃.mono (Set.empty_subset _))
    exact trans_of (StaysOn ∅) (hothers.of_on fun hun ↦ hon (h₂.roster.unhandled hun)) h₄.staysOn

theorem staysOn_of_reevaluate (hr : r.Remains (StaysOn ∅))
    (hrun : reevaluate r id e = (.ok (), e')) : StaysOn ∅ e e' := by
  obtain ⟨⟨_, hfailed⟩, -⟩ | ⟨-, hsettings⟩ | ⟨c, e₁, hc, hrefits, hswitch⟩ :=
    (yields_reevaluate id).of_eq hrun nofun
  · cases hfailed
  · exact hsettings.staysOn
  · cases henabled : c.enabled with
    | false =>
      rw [henabled] at hswitch
      cases hswitch
      -- the constraint was not on, so there is nothing to show of it
      refine ⟨hrefits.roster, fun _ k _ hk ↦ hrefits.resets.on (fun heq ↦ ?_) hk⟩
      obtain ⟨c', hc', hon⟩ := hk
      rw [show k = id from heq, hc] at hc'
      cases hc'
      cases henabled.symm.trans hon
    | true =>
      rw [henabled, if_pos rfl] at hswitch
      have hothers : StaysOn {id} e e' := trans_of (StaysOn {id}) hrefits.toAdjusts.staysOn
        ((staysOn_of_enable hr hswitch).mono (Set.empty_subset _))
      exact hothers.of_on fun hun ↦ on_of_enable hr (hrefits.roster.unhandled hun) hswitch

/-! ### Writing -/

theorem staysOn_of_countWrite (hr : r.Remains (StaysOn ∅))
    (hrun : countWrite r id e = (.ok (), e')) : StaysOn ∅ e e' := by
  obtain ⟨_, e₁, hchange, hrun⟩ := of_bind_ok hrun
  have h₁ : StaysOn ∅ e e₁ := (stays_changeConstraint fun _ ↦ .bookkeeping).of_ok hchange
  obtain ⟨c, -, hrun⟩ := of_lookup_bind_ok (constraintAt_eq id e₁) hrun
  split at hrun
  · obtain ⟨_, e₂, hreevaluate, hreset⟩ := of_bind_ok hrun
    have h₂ := trans_of (StaysOn ∅) h₁ (staysOn_of_reevaluate hr hreevaluate)
    cases hreset
    exact trans_of (StaysOn ∅) h₂ (Step.stays_modifyConstraint fun _ ↦ .bookkeeping)
  · cases hrun
    exact h₁

theorem staysOn_of_followUp (hr : r.Remains (StaysOn ∅)) {x : VarId} {v old : Value}
    {origin : Origin} {force outermost : Bool} {initiating : Option ConstraintId}
    (hrun : followUp r x v old origin force outermost initiating e = (.ok (), e')) :
    StaysOn ∅ e e' := by
  have hrest : ∀ {e₁}, Within (StaysOn ∅) e₁ (followUp r x v old origin force outermost none) :=
    stays_followUp_none (hr.spread x v old origin) fun _ _ ↦ hr.runHooks
  cases initiating with
  | none => exact hrest.of_ok hrun
  | some id =>
    obtain ⟨_, e₁, hcount, hrun⟩ := of_bind_ok hrun
    exact trans_of (StaysOn ∅) (staysOn_of_countWrite hr hcount) (hrest.of_ok hrun)

/-- **Writing** successfully leaves on what is on. -/
theorem staysOn_of_suggest (hr : r.Remains (StaysOn ∅)) {x : VarId} {v w : Value} {origin : Origin}
    {force : Bool} (hrun : suggest r x v origin force e = (.ok w, e')) : StaysOn ∅ e e' := by
  have hroster : r.Remains SameRoster := hr.mono StaysOn.roster
  have hwrite : Within SameRoster e (suggest r x v origin force) :=
    hroster.write (sameRoster_reevaluate hroster) x v origin force
  refine ⟨hwrite.of_ok hrun, fun hun ↦ StaysOn.on (of_suggest_ok hrun ?_ ?_ ?_ ?_) hun⟩
  · intro old outermost e₀ w e₁ hooks h₀ habsorb
    have h₁ : SameRoster e₀ e₁ :=
      (hroster.absorb (sameRoster_reevaluate hroster) x v old origin force outermost).of_ok habsorb
    have hset : SameRoster e₁ { e₁ with pendingHooks := hooks } := sameRoster_of_constraints rfl
    have htaken : Step.Within SameRoster { e₁ with pendingHooks := hooks } w.takeBack :=
      stays_takeBack Heedless.unbump w
    exact htaken.unhandled (hset.unhandled (h₁.unhandled (h₀.roster.unhandled hun)))
  · exact fun d ↦ stays_suggestPrimary (Heedless.bumpFor x origin d)
  · exact Heedless.unbump
  · exact fun _ ↦ staysOn_of_followUp hr

end Call

/-- By strict ways back, what is on stays on. -/
theorem Reentry.remains_staysOn (n : Nat) : (limited true n).Remains (StaysOn ∅) := by
  induction n with
  | zero => exact ⟨fun _ _ _ _ ↦ .tooDeep, fun _ ↦ .tooDeep, fun _ ↦ rfl⟩
  | succ n ih =>
    refine ⟨fun _ _ _ _ ↦ .insist fun _ _ ↦ ?_, fun _ ↦ .insist fun _ _ ↦ ?_, fun _ ↦ rfl⟩
    · exact Call.staysOn_of_suggest ih
    · exact Call.staysOn_of_recalculate ih

end LiveConstraints

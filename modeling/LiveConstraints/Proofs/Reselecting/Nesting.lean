import LiveConstraints.Proofs.Interruption
import LiveConstraints.Proofs.Reentrant.Lasting
import LiveConstraints.Proofs.Reselecting.Settings
/-!
# Selecting a solver anew in the course of other calls

A write may select a solver anew, and selecting may lead to writes. For a relation that does not notice
guards, weights and pins (`Engine.Heedless`), everything that leads back into the engine by limited ways
stays within it as soon as selecting and rebuilding do, given ways back that do
(`Reentry.remains_limited`).

So whatever is selected at whatever depth, the constraints of the engine are the same afterwards and have
the same options (`Call.sameRoster_reevaluate`).
-/

namespace LiveConstraints

open Engine

variable {R : Engine → Engine → Prop} {e e' : Engine} {r : Reentry} {id : ConstraintId} {n : Nat}
  {strict : Bool}

namespace Reentry

/-- The ways back into the engine stay within a relation, and no hook or handler makes a request. -/
structure Remains (R : Engine → Engine → Prop) (r : Reentry) : Prop where
  suggest : ∀ {e} x v origin force, Call.Within R e (r.suggest x v origin force)
  recalculate : ∀ {e} id, Call.Within R e (r.recalculate id)
  act : ∀ requests, r.act requests = throw .tooDeep

theorem Remains.mono {R' : Engine → Engine → Prop} (hr : r.Remains R)
    (hR : ∀ {e e'}, R e e' → R' e e') : r.Remains R' where
  suggest x v origin force := (hr.suggest x v origin force).mono fun _ ↦ hR
  recalculate id := (hr.recalculate id).mono fun _ ↦ hR
  act := hr.act

variable [Heedless R]

theorem Remains.runHooks (hr : r.Remains R) : Call.Within R e (Call.runHooks r) := by
  refine Call.stays_runHooks (fun requests ↦ ?_) (fun _ _ requests ↦ ?_) fun _ h ↦ ?_
  · rw [hr.act]
    exact .tooDeep
  · rw [hr.act]
    exact .tooDeep
  · exact Heedless.lower h rfl rfl

theorem Remains.spread (hr : r.Remains R) (x : VarId) (v old : Value) (origin : Origin) :
    Call.Within R e (Call.spread r x v old origin) :=
  Call.stays_spread (fun x v ↦ hr.suggest x v .propagation false) hr.recalculate
    fun _ ↦ hr.suggest x old .restore true

theorem Remains.stays (hr : r.Remains R) : r.Stays R where
  suggest x v := hr.suggest x v .propagation false
  spread x v old := hr.spread x v old .propagation
  runHooks _ _ := hr.runHooks

theorem Remains.absorb (hr : r.Remains R)
    (hreevaluate : ∀ {e} id, Call.Within R e (Call.reevaluate r id)) (x : VarId) (v old : Value)
    (origin : Origin) (force outermost : Bool) :
    Call.Within R e (Call.absorb r x v old origin force outermost) :=
  Call.stays_absorb (fun d ↦ Call.stays_suggestPrimary (Heedless.bumpFor x origin d))
    fun _ _ initiating ↦ Call.stays_followUp (fun id ↦ Call.stays_countWrite (hreevaluate id))
      (hr.spread x v old origin) (fun _ _ ↦ hr.runHooks) initiating

/-- A write, at the ways back, stays within the relation. -/
theorem Remains.write (hr : r.Remains R) (hreevaluate : ∀ {e} id, Call.Within R e (Call.reevaluate r id))
    (x : VarId) (v : Value) (origin : Origin) (force : Bool) :
    Call.Within R e (Call.suggest r x v origin force) :=
  Call.stays_write hr.stays hreevaluate hr.recalculate (fun _ _ old ↦ hr.suggest x old .restore true)
    (Heedless.bumpFor x origin) Heedless.unbump

/-! Work that was deferred is taken up by a call of its own. -/

omit [Heedless R] in
theorem Remains.settle {R' : Engine → Engine → Prop} [IsPreorder Engine R'] (hr : r.Remains R)
    (haside : ∀ {e : Engine} guards deferred journal, R' e { e with guards, deferred, journal }) :
    Call.Within R' e (Call.settle r) := by
  have htake : ∀ {e₁}, Call.Within R' e₁ Call.takeDeferred :=
    Call.stays_takeDeferred fun _ ↦ haside _ _ _
  refine Call.stays_settle (fun _ ↦ haside _ _ _) htake fun handler errors ↦ ?_
  refine .lift_bind (haside _ _ _) fun _ e₁ _ _ ↦ ?_
  rw [hr.act]
  exact .tooDeep

omit [Heedless R] in
theorem Remains.topLevel {α : Type} {R' : Engine → Engine → Prop} [IsPreorder Engine R']
    (hr : r.Remains R)
    (haside : ∀ {e : Engine} guards deferred journal, R' e { e with guards, deferred, journal })
    {call : Call α} (hcall : ∀ {e}, Call.Within R' e call) : Call.Within R' e (Call.topLevel r call) :=
  Call.stays_topLevel (fun h ↦ trans_of R' (haside _ _ _) (trans_of R' h (haside _ _ _))) hcall
    (hr.settle haside)

/-- **Limited ways back** stay within the relation at any depth. If they are strict, rebuilding has to
stay within it only where it succeeds. -/
theorem remains_limited
    (hreevaluate : ∀ {r : Reentry} {e} id, r.Remains R → Call.Within R e (Call.reevaluate r id))
    (hrecalculate : ∀ {r : Reentry} {e} id, r.Remains R →
      (strict = false → Call.Within R e (Call.recalculate r id)) ∧
      ∀ e', Call.recalculate r id e = (.ok (), e') → R e e') (n : Nat) :
    (limited strict n).Remains R := by
  induction n with
  | zero => exact ⟨fun _ _ _ _ ↦ .tooDeep, fun _ ↦ .tooDeep, fun _ ↦ rfl⟩
  | succ n ih =>
    refine ⟨fun {e} x v origin force ↦ ?_, fun {e} id ↦ ?_, fun _ ↦ rfl⟩
    · have hwrite : Call.Within R e (Call.suggest (limited strict n) x v origin force) :=
        ih.write (fun id ↦ hreevaluate id ih) x v origin force
      cases strict with
      | false => exact hwrite
      | true => exact .insist fun _ _ hrun ↦ hwrite.of_ok hrun
    · obtain ⟨hlenient, hsucceeds⟩ := hrecalculate (e := e) id ih
      cases strict with
      | false => exact hlenient rfl
      | true => exact .insist fun _ e' hrun ↦ hsucceeds e' hrun

end Reentry

/-! ### Constraints and their options -/

namespace Engine

instance : Ordinary SameRoster where
  aside config vars constraints solvers guards generation deferred pending journal :=
    (Ordinary.aside (R := SameSettings) config vars constraints solvers guards generation deferred
      pending journal).roster
  finds h := (Ordinary.finds (R := SameSettings) h).roster
  current h := h
  retouch _ _ _ := (sameSettings_of_constraints rfl).roster
  allocate _ := (sameSettings_of_constraints rfl).roster
  release _ := (sameSettings_of_constraints rfl).roster
  annotate id _ same unmarked := (Ordinary.annotate (R := SameSettings) id same unmarked).roster
  confine _ _ _ := (sameSettings_of_constraints rfl).roster
  register _ := (sameSettings_of_constraints rfl).roster

theorem sameRoster_of_constraints (h : e'.constraints = e.constraints) : SameRoster e e' :=
  (sameSettings_of_constraints h).roster

end Engine

namespace Engine

instance : Switching SameRoster where
  defining := Reads.defining
  beside _ _ _ constraints _ _ _ _ := sameRoster_of_constraints constraints
  current h := h
  annotate _ _ core := Arena.map_get?_modify fun c _ ↦ (core c).options
  operate _ _ _ := sameRoster_of_constraints rfl
  defer _ := sameRoster_of_constraints rfl
  recordHook _ _ _ := sameRoster_of_constraints rfl
  disable id := (Step.adjusts_disable id).1.roster
  switch {_ id c} _ := .lift_bind (sameRoster_of_constraints rfl) fun _ _ _ _ ↦
    ((Call.adjusts_activate id c).mono fun _ ↦ Adjusts.roster).attempt
  deactivate id c := (Call.adjusts_deactivate id c).roster

instance : Heedless SameRoster where
  store _ _ := .lift (sameRoster_of_constraints rfl)
  guards _ _ := sameRoster_of_constraints rfl
  bumpFor x origin d := (Call.ordinary_bumpFor (R := SameSettings) x origin d).mono
    fun _ ↦ SameSettings.roster
  unbump s xs := (Step.ordinary_unbump (R := SameSettings) s xs).mono fun _ ↦ SameSettings.roster

end Engine

namespace Call

/-- Realizing a constraint anew is about that constraint alone. -/
theorem adjusts_reroute (id : ConstraintId) (c : Constraint) :
    Within (Adjusts id) e (reroute id c) := by
  have hordinary : ∀ {m : Call Unit} {e₁ : Engine}, Within SameSettings e₁ m →
      Within (Adjusts id) e₁ m := fun h ↦ h.mono fun _ ↦ SameSettings.adjusts
  have hadjust : ∀ {f : Constraint → Constraint}, (∀ c, (f c).options = c.options) →
      ∀ e₁, Within (Adjusts id) e₁ (changeConstraint id f) := fun same e₁ ↦
    .constraintAt_bind fun _ _ ↦ .lift (adjusts_of_modify rfl same)
  have hdismantle : Within (Adjusts id) e (dismantle id c) := by
    refine .lift_bind (Step.adjusts_disable id).1 fun _ e₁ _ _ ↦ ?_
    refine Within.bind (hadjust ?_ e₁) fun _ e₂ _ _ ↦ ?_
    · exact fun _ ↦ rfl
    refine (hordinary ordinary_removeAll).bind fun _ e₃ _ _ ↦ ?_
    refine Within.bind (hordinary (.forIn fun x _ _ e₄ _ ↦ ?_)) fun _ e₄ _ _ ↦ hadjust ?_ e₄
    · exact .lift_bind (Step.ordinary_leave x id) fun _ _ _ _ ↦ .pure _
    · exact fun _ ↦ rfl
  refine hdismantle.bind fun _ e₁ _ _ ↦ (hordinary (ordinary_realize id)).bind fun _ e₂ _ _ ↦ ?_
  exact .constraintAt_bind fun c₂ _ ↦ (hordinary (ordinary_forsake _ _)).bind fun _ _ _ _ ↦ .pure _

theorem sameRoster_recalculate (hr : r.Remains SameRoster) (id : ConstraintId) :
    Within SameRoster e (recalculate r id) :=
  stays_recalculate hr.stays fun {c} _ _ ↦ (adjusts_reroute id c).mono fun _ ↦ Adjusts.roster

/-- **Selecting anew** at any depth leaves the engine the constraints that it has. -/
theorem sameRoster_reevaluate (hr : r.Remains SameRoster) (id : ConstraintId) :
    Within SameRoster e (reevaluate r id) := by
  intro hne
  obtain ⟨-, hrefits⟩ | ⟨-, hsettings⟩ | ⟨c, e₁, -, hrefits, hrun⟩ := yields_reevaluate id hne
  · exact hrefits.roster
  · exact hsettings.roster
  · have hswitched : Within SameRoster e₁ (if c.enabled then enable r id false else pure ()) :=
      stays_enableIf hr.stays id c.enabled
    rw [Within, hrun] at hswitched
    exact trans_of SameRoster hrefits.roster (hswitched hne)

end Call

/-- What is done at any depth leaves the engine the constraints that it has. -/
theorem Reentry.remains_sameRoster (strict : Bool) (n : Nat) : (limited strict n).Remains SameRoster :=
  remains_limited (fun id hr ↦ Call.sameRoster_reevaluate hr id)
    (fun id hr ↦ ⟨fun _ ↦ Call.sameRoster_recalculate hr id,
      fun _ hrun ↦ (Call.sameRoster_recalculate hr id).of_ok hrun⟩) n

end LiveConstraints

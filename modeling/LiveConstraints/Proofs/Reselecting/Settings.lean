import LiveConstraints.Proofs.Ordinary
import LiveConstraints.Proofs.Selection
/-!
# What constraints are set to

Ordinary operations neither let constraints come or go nor set them to anything else
(`Engine.SameSettings`). Switching a constraint on or off is about that constraint alone, and it stays
where it is (`Engine.Adjusts`); building, abandoning and supplanting let constraints come or go, each
those that it is about (`Engine.Resets`).

So much for the parts. What selecting a solver anew comes to before the constraint is switched on again
is put together from them (`Call.yields_reevaluate`): the candidates came and went, and no constraint but
the one that is reevaluated was touched.
-/

namespace LiveConstraints

open Engine

variable {α β : Type} {e e' e'' : Engine} {r : Reentry} {id : ConstraintId} {S S' : Set ConstraintId}

namespace Engine

/-- No constraint comes, goes, or is set to something else. -/
def SameSettings (e e' : Engine) : Prop := ∀ id,
  (e'.constraints.get? id).map Constraint.setting = (e.constraints.get? id).map Constraint.setting

/-- Only constraints of a set come, go, or are set to something else. -/
def Resets (S : Set ConstraintId) (e e' : Engine) : Prop := ∀ id ∉ S,
  (e'.constraints.get? id).map Constraint.setting = (e.constraints.get? id).map Constraint.setting

/-- No constraint comes or goes, or changes its options. -/
def SameRoster (e e' : Engine) : Prop := ∀ id,
  (e'.constraints.get? id).map Constraint.options = (e.constraints.get? id).map Constraint.options

/-- A constraint is set to something else, but stays, and keeps its options. -/
structure Adjusts (id : ConstraintId) (e e' : Engine) : Prop where
  roster : SameRoster e e'
  resets : Resets {id} e e'

instance : IsPreorder Engine SameSettings where
  refl _ _ := rfl
  trans _ _ _ h h' id := (h' id).trans (h id)

instance : IsPreorder Engine (Resets S) where
  refl _ _ _ := rfl
  trans _ _ _ h h' id hid := (h' id hid).trans (h id hid)

instance : IsPreorder Engine SameRoster where
  refl _ _ := rfl
  trans _ _ _ h h' id := (h' id).trans (h id)

instance : IsPreorder Engine (Adjusts id) where
  refl e := ⟨refl_of SameRoster e, refl_of (Resets {id}) e⟩
  trans _ _ _ h h' := ⟨trans_of SameRoster h.roster h'.roster, trans_of (Resets {id}) h.resets h'.resets⟩

theorem sameSettings_of_constraints (h : e'.constraints = e.constraints) : SameSettings e e' :=
  fun _ ↦ by rw [h]

theorem SameSettings.resets (h : SameSettings e e') : Resets S e e' := fun id _ ↦ h id

theorem SameSettings.roster (h : SameSettings e e') : SameRoster e e' := fun id ↦ by
  have hid := congrArg (Option.map fun setting ↦ setting.2.2) (h id)
  rwa [Option.map_map, Option.map_map] at hid

theorem SameSettings.adjusts (h : SameSettings e e') : Adjusts id e e' := ⟨h.roster, h.resets⟩

theorem Resets.mono (h : Resets S e e') (hS : S ⊆ S') : Resets S' e e' :=
  fun id hid ↦ h id fun hmem ↦ hid (hS hmem)

theorem Resets.get?_eq_none (h : Resets S e e') (hid : id ∉ S) (hnone : e.constraints.get? id = none) :
    e'.constraints.get? id = none := by
  have hmap := h id hid
  rwa [hnone, Option.map_none, Option.map_eq_none_iff] at hmap

theorem Resets.off (h : Resets S e e') (hid : id ∉ S) (hoff : e.Off id) : e'.Off id := by
  intro c' hc'
  have hmap := h id hid
  rw [hc', Option.map_some] at hmap
  obtain ⟨c, hc, heq⟩ := Option.map_eq_some_iff.1 hmap.symm
  exact (congrArg (·.2.1) heq).symm.trans (hoff c hc)

theorem SameRoster.get?_eq_none (h : SameRoster e e') (hnone : e.constraints.get? id = none) :
    e'.constraints.get? id = none := by
  have hmap := h id
  rwa [hnone, Option.map_none, Option.map_eq_none_iff] at hmap

/-- A constraint of which something is the same as before is there if it was. -/
theorem live_of_map {f : Constraint → β}
    (h : (e'.constraints.get? id).map f = (e.constraints.get? id).map f) (hlive : e.Live id) :
    e'.Live id := by
  obtain ⟨c, hc⟩ := hlive
  rw [hc, Option.map_some] at h
  obtain ⟨c', hc', -⟩ := Option.map_eq_some_iff.1 h
  exact ⟨c', hc'⟩

theorem SameRoster.live (h : SameRoster e e') (hlive : e.Live id) : e'.Live id := live_of_map (h id) hlive

theorem adjusts_of_constraints (h : e'.constraints = e.constraints) : Adjusts id e e' :=
  (sameSettings_of_constraints h).adjusts

/-- A constraint changes, but not in its options. -/
theorem adjusts_of_modify {f : Constraint → Constraint}
    (h : e'.constraints = e.constraints.modify id f) (same : ∀ c, (f c).options = c.options) :
    Adjusts id e e' := by
  constructor
  · intro other
    rw [h]
    exact Arena.map_get?_modify (fun c _ ↦ same c) other
  · intro other hother
    rw [h, Arena.get?_modify, if_neg (show ¬other = id from hother)]

theorem off_of_modify {f : Constraint → Constraint}
    (h : e'.constraints = e.constraints.modify id f) (off : ∀ c, (f c).enabled = false) :
    e'.Off id := by
  intro c' hc'
  rw [h, Arena.get?_modify, if_pos rfl] at hc'
  obtain ⟨c, -, rfl⟩ := Option.map_eq_some_iff.1 hc'
  exact off c

/-- A constraint is dropped. -/
theorem resets_of_remove (h : e'.constraints = e.constraints.remove id) : Resets {id} e e' := by
  intro other hother
  rw [h, Arena.get?_remove, if_neg (show ¬other = id from hother)]

/-- A new constraint. -/
theorem resets_of_insert {c : Constraint} (h : e'.constraints = e.constraints.insert c) :
    Resets {e.constraints.next} e e' := by
  intro other hother
  rw [h, Arena.get?_insert, if_neg (show ¬other = e.constraints.next from hother)]

instance : Ordinary SameSettings where
  aside _ _ constraints _ _ _ _ _ _ := sameSettings_of_constraints constraints
  finds h := sameSettings_of_constraints h.constraints
  current h := h
  retouch _ _ _ := sameSettings_of_constraints rfl
  allocate _ := sameSettings_of_constraints rfl
  release _ := sameSettings_of_constraints rfl
  annotate _ _ same _ := Arena.map_get?_modify fun c _ ↦ same c
  confine _ _ _ := sameSettings_of_constraints rfl
  register _ := sameSettings_of_constraints rfl

instance : Pinning SameSettings where
  closure x := (Step.recalls_closure x).mono fun _ h ↦ sameSettings_of_constraints h.constraints
  weigh _ _ _ := sameSettings_of_constraints rfl
  pin _ := Step.within_pinDownstream (fun _ _ _ ↦ sameSettings_of_constraints rfl)
    fun _ ↦ sameSettings_of_constraints rfl
  unpin _ := Step.within_unpinDownstream (fun _ _ _ ↦ sameSettings_of_constraints rfl)
    fun _ ↦ sameSettings_of_constraints rfl
  suggesting _ h := h

end Engine

/-! ### Switching -/

theorem Step.adjusts_disable (id : ConstraintId) :
    Adjusts id e (disable id e).2 ∧ (disable id e).2.Off id := by
  unfold disable
  rw [get_run]
  cases hc : e.constraints.get? id with
  | none => exact ⟨refl_of (Adjusts id) e, fun c hc' ↦ by cases hc.symm.trans hc'⟩
  | some c =>
    dsimp only
    split
    · rw [bind_run, run_modifyAll]
      refine ⟨adjusts_of_modify rfl fun _ ↦ rfl, fun c' hc' ↦ ?_⟩
      have hmap : (e.constraints.modify id fun c ↦ { c with enabled := false }).get? id = some c' := hc'
      rw [Arena.get?_modify, if_pos rfl, hc, Option.map_some] at hmap
      cases hmap
      rfl
    · next hoff =>
      refine ⟨refl_of (Adjusts id) e, fun c' hc' ↦ ?_⟩
      cases hc.symm.trans hc'
      exact Bool.not_eq_true _ ▸ hoff

namespace Call

theorem adjusts_deactivate (id : ConstraintId) (c : Constraint) :
    Step.Within (Adjusts id) e (deactivate id c) := by
  rw [Step.Within, deactivate_run]
  exact adjusts_of_modify rfl fun _ ↦ rfl

theorem adjusts_activate (id : ConstraintId) (c : Constraint) :
    Within (Adjusts id) e (activate id c) := by
  unfold activate
  refine Within.bind (.forIn fun p _ _ e₁ _ ↦ ?_) fun _ e₁ _ _ ↦
    Within.bind (.constraintAt_bind fun _ _ ↦ .lift (adjusts_of_modify rfl fun _ ↦ rfl)) fun _ e₂ _ _ ↦ ?_
  · refine Within.bind (.of_askSolver fun solver _ ↦ ?_) fun _ _ _ _ ↦ .pure _
    exact adjusts_of_constraints rfl
  · split
    · exact .of_askSolver fun solver _ ↦ adjusts_of_constraints rfl
    · exact .pure _

/-- Switching on stays within whatever reconciling stays within, if the constraint itself is no
matter. -/
theorem within_enable_of_adjusts {R : Engine → Engine → Prop} [IsPreorder Engine R] {compare : Bool}
    (hR : ∀ {e e'}, Adjusts id e e' → R e e')
    (hreconcile : ∀ {e} xs, Within R e (reconcile r compare xs)) :
    Within R e (enable r id compare) := by
  refine .constraintAt_bind fun c _ ↦ ?_
  split
  · exact .pure _
  · dsimp only
    split
    · exact .get_bind (.fail _)
    · have htick : ∀ e₁, Step.Within R e₁ Step.tick :=
        fun _ ↦ hR (adjusts_of_constraints rfl)
      refine .lift_bind (htick e) fun _ e₁ _ _ ↦ ?_
      refine ((adjusts_activate id c).attempt.mono fun _ ↦ hR).bind fun result e₂ _ _ ↦ ?_
      cases result with
      | error err =>
        exact .lift_bind ((adjusts_deactivate id c).mono fun _ ↦ hR) fun _ _ _ _ ↦ .fail _
      | ok _ =>
        refine .lift_bind (hR (adjusts_of_constraints rfl)) fun elapsedMs e₃ _ _ ↦ ?_
        have hreport : Step.Within SameSettings e₃ (Step.reportSolve (some id) c.solver .enable) :=
          Step.operating_reportSolve _ _ _
        refine .lift_bind (hreport.mono fun _ h ↦ hR h.adjusts) fun _ e₄ _ _ ↦ ?_
        refine .constraintAt_bind fun c₄ _ ↦ (hreconcile c₄.vars).bind fun changes e₅ _ _ ↦ ?_
        exact .constraintAt_bind fun _ _ ↦ .lift (hR (adjusts_of_modify rfl fun _ ↦ rfl))

/-- While candidates are compared, no other constraint is touched. -/
theorem adjusts_enable_compare (id : ConstraintId) : Within (Adjusts id) e (enable r id true) :=
  within_enable_of_adjusts (fun h ↦ h) fun xs ↦ (recalls_reconcile xs).mono fun _ h ↦
    adjusts_of_constraints h.constraints

/-- A candidate that was tried is off again. -/
theorem gives_trial_adjusts (id : ConstraintId) :
    Gives (Adjusts id) e (trial r id) fun _ e' ↦ e'.Off id := by
  refine (adjusts_enable_compare id).attempt.bind_gives fun result e₁ _ _ ↦ ?_
  obtain ⟨hadjusts, hoff⟩ := Step.adjusts_disable (e := e₁) id
  exact ⟨.lift_bind hadjusts fun _ _ _ _ ↦ .pure _, fun _ _ hrun ↦ by cases hrun; exact hoff⟩

theorem unfailing_measure (id : ConstraintId) (s : SolverId) : Unfailing (measure r id s) :=
  .get_bind fun _ ↦ (Unfailing.lift _).bind fun _ ↦ (unfailing_trial id).bind fun _ ↦
    (Unfailing.lift _).bind fun _ ↦ .get_bind fun _ ↦ .pure _

/-- **Measuring** a candidate leaves it off. -/
theorem gives_measure_adjusts (id : ConstraintId) (s : SolverId) :
    Gives (Adjusts id) e (measure r id s) fun _ e' ↦ e'.Off id := by
  refine .get_bind ?_
  have htrial := gives_trial_adjusts (r := r)
    (e := { e with guards := { e.guards with current := some (id, s) } }) id
  constructor
  · exact .bracket (S := Adjusts id) (g := fun g ↦ { g with current := e.guards.current }) htrial.within
      (unfailing_trial id _) (fun _ h ↦ ⟨h.roster, h.resets⟩) fun _ _ _ _ ↦ .get_bind (.pure _)
  · intro result e' hrun
    obtain ⟨_, _, hraise, hrun⟩ := of_bind_ok hrun
    cases hraise
    obtain ⟨outcome, e₁, htried, hrun⟩ := of_bind_ok hrun
    obtain ⟨_, _, hlower, hrun⟩ := of_bind_ok hrun
    cases hlower
    cases hrun
    exact htrial.result outcome e₁ htried

/-! ### Coming and going -/

end Call

namespace Step

/-- An abandoned constraint is gone. -/
theorem resets_abandon (id : ConstraintId) :
    Resets {id} e (abandon id e).2 ∧ (abandon id e).2.constraints.get? id = none := by
  have hdisable := (adjusts_disable (e := e) id).1
  unfold abandon
  rw [bind_run, get_run]
  cases hc : (disable id e).2.constraints.get? id with
  | none => exact ⟨hdisable.resets, hc⟩
  | some c =>
    -- once the constraint is removed, nothing that follows is about constraints
    have hrest : Within SameSettings
        { (disable id e).2 with constraints := (disable id e).2.constraints.remove id } (do
      for p in c.primitives do
        modifySolver c.solver fun s => s.removePrimitive p
      for x in c.vars do
        leave x id
        detachUnused x
      tick) := by
      refine Within.bind (operating_modifyAll fun p _ ↦ ?_) fun _ _ _ _ ↦ ?_
      · exact (Solver.sameFlags_removePrimitive p).operates
      refine Within.bind (.forIn fun x _ _ _ _ ↦ ?_) fun _ _ _ _ ↦ ordinary_tick
      exact (ordinary_leave x id).bind fun _ _ _ _ ↦
        (ordinary_detachUnused x).bind fun _ _ _ _ ↦ .pure _
    refine ⟨trans_of (Resets {id}) hdisable.resets
      (trans_of (Resets {id}) (resets_of_remove rfl) hrest.resets), ?_⟩
    exact SameRoster.get?_eq_none hrest.roster (Arena.get?_remove_self _ id)

end Step

namespace Call

/-- **Building** lets nothing but a new constraint come, and nothing at all when it fails. -/
theorem yields_build (predicate : Expr) (s : SolverId) (options : ConstraintOptions)
    (mode : BuildMode) : Yields e (build predicate s options mode) fun outcome e' ↦ match outcome with
      | .ok id => e.constraints.get? id = none ∧ Resets {id} e e'
      | .error _ => SameSettings e e' := by
  have hnew := Arena.get?_next e.constraints
  refine .lookup_bind (solverAt_eq s e) (fun _ ↦ refl_of SameSettings e) fun solver _ ↦ .get_bind ?_
  refine .modify_bind ?_
  refine Succeeds.bind (Yields.attempt (S := fun _ e' ↦ Resets {e.constraints.next} e e')
    (ordinary_realize (R := SameSettings) e.constraints.next).yields ?_ ?_) fun result e₁ h₁ ↦ ?_
  · exact fun _ _ h ↦ trans_of (Resets _) (resets_of_insert rfl) h.resets
  · exact fun _ _ h ↦ trans_of (Resets _) (resets_of_insert rfl) h.resets
  cases result with
  | ok _ => exact .pure ⟨hnew, h₁⟩
  | error err =>
    obtain ⟨hresets, hgone⟩ := Step.resets_abandon (e := e₁) e.constraints.next
    refine .lift_bind (.fail fun id ↦ ?_)
    by_cases hid : id = e.constraints.next
    · rw [hid, hnew, hgone]
    · exact trans_of (Resets {e.constraints.next}) h₁ hresets id hid

end Call

/-! ### Comparing candidates -/

namespace Engine

variable {ids : List ConstraintId} {k : ConstraintId}

/-- New constraints come, and nothing else is touched. -/
structure Introduces (ids : List ConstraintId) (e e' : Engine) : Prop where
  resets : Resets {k | k ∈ ids} e e'
  new : ∀ k ∈ ids, e.constraints.get? k = none

/-- Some constraints are switched or dropped. Another one is switched as well, but stays, and it does not
come on. -/
structure Contests (ids : List ConstraintId) (id : ConstraintId) (e e' : Engine) : Prop where
  resets : Resets {k | k ∈ ids ∨ k = id} e e'
  gone : ∀ k, e.constraints.get? k = none → e'.constraints.get? k = none
  options : (e'.constraints.get? id).map Constraint.options =
    (e.constraints.get? id).map Constraint.options
  off : e.Off id → e'.Off id

/-- A constraint is fitted with a realization, and does not come on. -/
structure Refits (id : ConstraintId) (e e' : Engine) : Prop extends Adjusts id e e' where
  off : e.Off id → e'.Off id

instance : IsPreorder Engine (Contests ids id) where
  refl e := ⟨refl_of (Resets _) e, fun _ h ↦ h, rfl, fun h ↦ h⟩
  trans _ _ _ h h' := ⟨trans_of (Resets _) h.resets h'.resets, fun k hk ↦ h'.gone k (h.gone k hk),
    h'.options.trans h.options, fun hoff ↦ h'.off (h.off hoff)⟩

instance : IsPreorder Engine (Refits id) where
  refl e := ⟨refl_of (Adjusts id) e, fun h ↦ h⟩
  trans _ _ _ h h' := ⟨trans_of (Adjusts id) h.toAdjusts h'.toAdjusts, fun hoff ↦ h'.off (h.off hoff)⟩

theorem Contests.live (h : Contests ids id e e') (hlive : e.Live id) : e'.Live id :=
  live_of_map h.options hlive

theorem SameSettings.off (h : SameSettings e e') (hoff : e.Off id) : e'.Off id :=
  Resets.off (S := ∅) h.resets (fun hmem ↦ hmem) hoff

theorem SameSettings.refits (h : SameSettings e e') : Refits id e e' := ⟨h.adjusts, h.off⟩

theorem SameSettings.contests (h : SameSettings e e') : Contests ids id e e' :=
  ⟨h.resets, fun _ ↦ h.roster.get?_eq_none, h.roster id, h.off⟩

/-- One of the constraints is switched, and off in the end if it is the one that stays. -/
theorem Adjusts.contests (h : Adjusts k e e') (hk : k ∈ ids ∨ k = id) (hoff : e'.Off k) :
    Contests ids id e e' := by
  refine ⟨h.resets.mono fun _ heq ↦ ?_, fun _ ↦ h.roster.get?_eq_none, h.roster id, fun hid ↦ ?_⟩
  · rwa [show _ = k from heq]
  · by_cases hne : id = k
    · rwa [hne]
    · exact h.resets.off hne hid

/-- One of the constraints is dropped. -/
theorem Resets.contests (h : Resets {k} e e') (hgone : e'.constraints.get? k = none) (hk : k ∈ ids)
    (hne : id ≠ k) : Contests ids id e e' := by
  refine ⟨h.mono fun _ heq ↦ ?_, fun other hother ↦ ?_, ?_, h.off hne⟩
  · exact .inl ((show _ = k from heq) ▸ hk)
  · by_cases heq : other = k
    · rwa [heq]
    · exact h.get?_eq_none heq hother
  · have hid := congrArg (Option.map fun setting ↦ setting.2.2) (h id hne)
    rwa [Option.map_map, Option.map_map] at hid

theorem Introduces.live (h : Introduces ids e e') (hid : id ∉ ids) (hlive : e.Live id) : e'.Live id :=
  live_of_map (h.resets id hid) hlive

/-- When all that came is gone again, a constraint was fitted with a realization. -/
theorem Introduces.refits {e₁ : Engine} (h : Introduces ids e e₁) (h' : Contests ids id e₁ e')
    (hid : id ∉ ids) (hgone : ∀ k ∈ ids, e'.constraints.get? k = none) : Refits id e e' := by
  have hoptions : (e'.constraints.get? id).map Constraint.options =
      (e.constraints.get? id).map Constraint.options := by
    have hmap := congrArg (Option.map fun setting ↦ setting.2.2) (h.resets id hid)
    rw [Option.map_map, Option.map_map] at hmap
    exact h'.options.trans hmap
  have hresets : Resets {id} e e' := by
    intro k hne
    by_cases hk : k ∈ ids
    · rw [h.new k hk, hgone k hk]
    · exact (h'.resets k (not_or.2 ⟨hk, hne⟩)).trans (h.resets k hk)
  refine ⟨⟨fun k ↦ ?_, hresets⟩, fun hoff ↦ h'.off (h.resets.off hid hoff)⟩
  by_cases hne : k = id
  · rwa [hne]
  · have hmap := congrArg (Option.map fun setting ↦ setting.2.2) (hresets k hne)
    rwa [Option.map_map, Option.map_map] at hmap

end Engine

namespace Call

variable {ids : List ConstraintId} {source target : ConstraintId} {old : Constraint}

theorem succeeds_buildCandidates (options : ConstraintOptions) (predicate : Expr)
    (solvers : List SolverId) :
    Succeeds e (buildCandidates options predicate solvers) fun built e' ↦ Introduces built.1 e e' := by
  refine Succeeds.bind (Succeeds.forIn (P := fun acc e' ↦ Introduces acc.1 e e') ⟨?_, nofun⟩
    fun s _ acc e₁ h₁ ↦ ?_) fun acc e' h' ↦ .pure ⟨_, rfl, h'⟩
  · exact refl_of (Resets _) e
  · refine Succeeds.bind ((yields_build predicate s options .always).attempt
      (S := fun result e₂ ↦ match result with
        | .ok id => e₁.constraints.get? id = none ∧ Resets {id} e₁ e₂
        | .error _ => SameSettings e₁ e₂) (fun _ _ h ↦ h) fun _ _ h ↦ h) fun result e₂ h₂ ↦ ?_
    cases result with
    | error err => exact .pure ⟨_, rfl, trans_of (Resets _) h₁.resets h₂.resets, h₁.new⟩
    | ok id =>
      have hmono : Resets {k | k ∈ acc.1 ++ [id]} e₁ e₂ := h₂.2.mono fun k hk ↦
        List.mem_append_right _ (List.mem_singleton.2 hk)
      refine .pure ⟨_, rfl, trans_of (Resets _) (h₁.resets.mono fun k hk ↦ ?_) hmono, fun k hk ↦ ?_⟩
      · exact List.mem_append_left _ hk
      · by_cases hold : k ∈ acc.1
        · exact h₁.new k hold
        · obtain rfl : k = id := by simpa [hold] using hk
          have hmap := h₁.resets k hold
          rw [h₂.1, Option.map_none] at hmap
          exact Option.map_eq_none_iff.1 hmap.symm

/-- All candidates are switched off, and then each is tried. -/
theorem gives_chooseConstraint_contests (id : ConstraintId)
    (options : ConstraintOptions) :
    Gives (Contests ids id) e (chooseConstraint r (ids ++ [id]) (some id) options) fun chosen _ ↦
      ∀ w, chosen.1 = some w → w ∈ ids ∨ w = id := by
  have hmem : ∀ k ∈ ids ++ [id], k ∈ ids ∨ k = id := fun k hk ↦ by simpa using hk
  have hdisable : Within (Contests ids id) e (forIn (ids ++ [id]) PUnit.unit fun k _ ↦ do
      (liftM (Step.disable k) : Call Unit)
      pure (.yield PUnit.unit)) := .forIn fun k hk _ e₁ _ ↦ by
    obtain ⟨hadjusts, hoff⟩ := Step.adjusts_disable (e := e₁) k
    exact .lift_bind (hadjusts.contests (hmem k hk) hoff) fun _ _ _ _ ↦ .pure _
  refine hdisable.bind_gives fun _ e₁ _ _ ↦ (Gives.forIn
    (P := fun acc _ ↦ ∀ m ∈ acc.1, m.1 ∈ ids ∨ m.1 = id) nofun
    fun k hk acc e₂ _ hacc ↦ .get_bind ?_).bind fun acc e₂ _ hacc ↦ .get_bind ?_
  · dsimp only
    split
    · exact .pure hacc
    · next c _ =>
      have hmeasure := gives_measure_adjusts (r := r) (e := e₂) k c.solver
      have hcontests : Gives (Contests ids id) e₂ (measure r k c.solver) fun _ _ ↦ True :=
        ⟨hmeasure.returns (unfailing_measure k c.solver) fun _ _ h hoff ↦ h.contests (hmem k hk) hoff,
          fun _ _ _ ↦ trivial⟩
      refine hcontests.bind fun result e₃ _ _ ↦ ?_
      cases result with
      | ok m =>
        refine .pure fun m' hm' ↦ ?_
        rcases List.mem_append.1 hm' with hold | hnew
        · exact hacc m' hold
        · rw [List.mem_singleton.1 hnew]
          exact hmem k hk
      | error err =>
        dsimp only
        split
        · next hne =>
          have hne : id ≠ k := fun heq ↦ by simp [heq] at hne
          obtain ⟨hresets, hgone⟩ := Step.resets_abandon (e := e₃) k
          have habandon : Within (Contests ids id) e₃ (liftM (Step.abandon k)) :=
            .lift (hresets.contests hgone ((hmem k hk).resolve_right (Ne.symm hne)) hne)
          exact habandon.bind_gives fun _ _ _ _ ↦ .pure hacc
        · exact .pure hacc
  · dsimp only
    split
    · exact .pure nofun
    · next best hbest =>
      have hwinner : ∀ w, some best = some w → w ∈ ids ∨ w = id := by
        rintro w ⟨⟩
        obtain ⟨m, hm, rfl⟩ := List.mem_map.1 (selectBest_mem hbest)
        exact hacc m hm
      refine .get_bind ?_
      split
      · exact .pure hwinner
      · have hreport : ∀ event, Within (Contests ids id) e₂ (liftM (Step.report event)) :=
          fun _ ↦ .lift (SameSettings.contests (sameSettings_of_constraints rfl))
        exact (hreport _).bind_gives fun _ _ _ _ ↦ .pure hwinner

theorem unfailing_chooseConstraint (candidates : List ConstraintId) (keep : Option ConstraintId)
    (options : ConstraintOptions) : Unfailing (chooseConstraint r candidates keep options) := by
  refine Unfailing.bind (.forIn fun _ _ ↦ (Unfailing.lift _).bind fun _ ↦ .pure _) fun _ ↦
    Unfailing.bind (.forIn fun k acc ↦ .get_bind fun e ↦ ?_) fun acc ↦ .get_bind fun e ↦ ?_
  · split
    · exact .pure _
    · refine (unfailing_measure k _).bind fun result ↦ ?_
      cases result with
      | ok m => exact .pure _
      | error err =>
        dsimp only
        split
        · exact (Unfailing.lift _).bind fun _ ↦ .pure _
        · exact .pure _
  · dsimp only
    split
    · exact .pure _
    · refine .get_bind fun e ↦ ?_
      split
      · exact .pure _
      · exact (Unfailing.lift _).bind fun _ ↦ .pure _

/-- Abandons some of several constraints. -/
def abandonSome (ids : List ConstraintId) (q : ConstraintId → Bool) : Call PUnit :=
  forIn ids PUnit.unit fun k _ ↦
    if q k then do
      Step.abandon k
      pure (.yield PUnit.unit)
    else pure (.yield PUnit.unit)

theorem unfailing_abandonSome (ids : List ConstraintId) (q : ConstraintId → Bool) :
    Unfailing (abandonSome ids q) := by
  refine .forIn fun k _ ↦ ?_
  split
  · exact (Unfailing.lift _).bind fun _ ↦ .pure _
  · exact .pure _

/-- Some of the candidates are dropped. -/
theorem succeeds_abandonSome (id : ConstraintId) (hid : id ∉ ids) (q : ConstraintId → Bool) :
    Succeeds e (abandonSome ids q) fun _ e' ↦
      Contests ids id e e' ∧ ∀ k ∈ ids, q k = true → e'.constraints.get? k = none := by
  -- each of those to drop is still to come or gone already
  have hgives : Gives (R := Contests ids id) (e := e) (m := abandonSome ids q) fun _ e' ↦
      [] <:+ ids ∧ ∀ k ∈ ids, q k = true → k ∈ ([] : List ConstraintId) ∨ e'.constraints.get? k = none := by
    refine Gives.forIn_all (P := fun rest _ e' ↦ rest <:+ ids ∧
      ∀ k ∈ ids, q k = true → k ∈ rest ∨ e'.constraints.get? k = none)
      ⟨List.suffix_refl _, fun k hk _ ↦ .inl hk⟩ fun k rest _ e₁ _ ⟨hsuffix, hold⟩ ↦ ?_
    have hk : k ∈ ids := hsuffix.subset List.mem_cons_self
    have hrest : rest <:+ ids := (List.suffix_cons k rest).trans hsuffix
    split
    · obtain ⟨hresets, hgone⟩ := Step.resets_abandon (e := e₁) k
      have hcontests : Contests ids id e₁ (Step.abandon k e₁).2 :=
        hresets.contests hgone hk fun heq ↦ hid (heq ▸ hk)
      refine .of_run rfl hcontests ⟨_, rfl, hrest, fun other hother hq ↦ ?_⟩
      obtain hmem | hnone := hold other hother hq
      · obtain rfl | hlater := List.mem_cons.1 hmem
        · exact .inr hgone
        · exact .inl hlater
      · exact .inr (hcontests.gone other hnone)
    · next hkeep =>
      refine .pure ⟨_, rfl, hrest, fun other hother hq ↦ ?_⟩
      obtain hmem | hnone := hold other hother hq
      · obtain rfl | hlater := List.mem_cons.1 hmem
        · exact absurd hq hkeep
        · exact .inl hlater
      · exact .inr hnone
  exact (hgives.succeeds (unfailing_abandonSome ids q)).mono fun _ _ ⟨a, hok, hcontests, hdone⟩ ↦
    ⟨a, hok, hcontests, fun k hk hq ↦ (hdone.2 k hk hq).resolve_left List.not_mem_nil⟩

/-- What is left of supplanting a constraint once the source is removed. -/
def resettle (source target : ConstraintId) (old winner : Constraint) : Call Unit := do
  for x in winner.vars do
    Step.modifyVariable x fun v =>
      { v with constraints := SortedSet.add (v.constraints.erase source) target }
  for x in old.vars do
    if !winner.vars.contains x then Step.leave x target
  changeConstraint target fun c =>
    { c with
      solver := winner.solver
      primitives := winner.primitives
      vars := winner.vars
      isTest := winner.isTest
      measurement := winner.measurement
      enabled := false }
  Step.tick
  for x in (SortedSet.ofMembers (old.vars ++ winner.vars)).members do
    Step.detachUnused x
  let e ← get
  Step.report
    (.solverSwitched target (e.solverName old.solver) (e.solverName winner.solver))

/-- The target is off in the end. -/
theorem contests_resettle (source target : ConstraintId) (old winner : Constraint) :
    Within (Contests ids target) e (resettle source target old winner) := by
  refine Within.bind_of (ordinary_joinAll source target winner.vars)
    (fun _ ↦ SameSettings.contests) fun _ e₁ _ _ ↦ ?_
  refine Within.bind_of (ordinary_leaveSome old.vars winner.vars target)
    (fun _ ↦ SameSettings.contests) fun _ e₂ _ _ ↦ ?_
  refine Within.bind (.constraintAt_bind fun c _ ↦ .lift ?_) fun _ e₃ _ _ ↦ ?_
  · refine Adjusts.contests (adjusts_of_modify rfl ?_) (.inr rfl) (off_of_modify rfl ?_) <;>
      exact fun _ ↦ rfl
  refine Within.bind_of (R := Contests ids target) (.lift Step.ordinary_tick)
    (fun _ ↦ SameSettings.contests) fun _ e₄ _ _ ↦ ?_
  refine Within.bind (.forIn fun x _ _ e₅ _ ↦ ?_) fun _ e₅ _ _ ↦ .get_bind (.lift ?_)
  · have hdetach : Step.Within SameSettings e₅ (Step.detachUnused x) := Step.ordinary_detachUnused x
    exact .lift_bind hdetach.contests fun _ _ _ _ ↦ .pure _
  · exact SameSettings.contests (sameSettings_of_constraints rfl)

/-- The source of a transplant is gone, and the target is off. -/
theorem yields_transplantInto (hsource : source ∈ ids) (hne : source ≠ target)
    (hlive : e.Live target) : Yields e (transplantInto source target) fun _ e' ↦
      Contests ids target e e' ∧ e'.constraints.get? source = none := by
  refine .constraintAt_bind (fun hnone ↦ ?_) fun old _ ↦ ?_
  · obtain ⟨c, hc⟩ := hlive
    cases hnone.symm.trans hc
  have hremove : Succeeds e (forIn old.primitives PUnit.unit fun p _ ↦ do
      (liftM (Step.modifySolver old.solver fun s => s.removePrimitive p) : Call Unit)
      pure (.yield PUnit.unit)) fun _ e₁ ↦ SameSettings e e₁ :=
    ordinary_removeAll.succeeds (.forIn fun _ _ ↦ (Unfailing.lift _).bind fun _ ↦ .pure _)
  refine Succeeds.bind hremove fun _ e₁ h₁ ↦ ?_
  refine .constraintAt_bind (fun hnone ↦ ⟨h₁.contests, hnone⟩) fun winner _ ↦ .modify_bind ?_
  have hgone := Arena.get?_remove_self e₁.constraints source
  have hremoved : Contests ids target e₁
      { e₁ with constraints := e₁.constraints.remove source } :=
    (resets_of_remove rfl).contests hgone hsource (Ne.symm hne)
  have hrest : Within (Contests ids target)
      { e₁ with constraints := e₁.constraints.remove source } (resettle source target old winner) :=
    contests_resettle source target old winner
  refine hrest.yields.mono fun _ e' h' ↦ ⟨?_, h'.gone source hgone⟩
  exact trans_of (Contests ids target) h₁.contests (trans_of (Contests ids target) hremoved h')

theorem unfailing_filterCandidates (options : ConstraintOptions) (predicate : Expr)
    (solvers : List SolverId) : Unfailing (filterCandidates options predicate solvers) := by
  refine (unfailing_attempt _).bind fun _ ↦ .get_bind fun _ ↦ ?_
  refine Unfailing.bind (.forIn fun s acc ↦ .get_bind fun e ↦ ?_) fun _ ↦ .pure _
  split
  · exact .pure _
  · dsimp only
    split
    · exact .pure _
    · split
      · exact (Unfailing.lift _).bind fun _ ↦ .pure _
      · exact .pure _

/-- How selecting a solver anew ends. It fails, or there is nothing to select from, or the constraint is
switched on again if it was on; and until then no other constraint is touched. -/
def Reselects (r : Reentry) (id : ConstraintId) (e : Engine) (outcome : Except Halt Unit) (e' : Engine) :
    Prop :=
  ((∃ err, outcome = .error (.failed err)) ∧ Refits id e e') ∨
  (outcome = .ok () ∧ SameSettings e e') ∨
  ∃ c e₁, e.constraints.get? id = some c ∧ Refits id e e₁ ∧
    (if c.enabled then enable r id false else pure ()) e₁ = (outcome, e')

/-- What is left of selecting anew once candidates are built. -/
def contend (r : Reentry) (id : ConstraintId) (c : Constraint) (built : List ConstraintId) : Call Unit := do
  let (winner, _) ← chooseConstraint r (built ++ [id]) (some id) c.options
  for other in built do
    if other != id && some other != winner then Step.abandon other
  match winner with
  | some w => if w != id then transplantInto w id
  | none => pure ()
  if c.enabled then enable r id false

/-- Candidates have come. One after another they are gone again, and the constraint is fitted with the
realization of the best. -/
theorem yields_contend {e₁ e₂ : Engine} {c : Constraint} (hc : e.constraints.get? id = some c)
    (h₁ : SameSettings e e₁) (h₂ : Introduces ids e₁ e₂) :
    Yields e₂ (contend r id c ids) (Reselects r id e) := by
  have hlive₁ : e₁.Live id := h₁.roster.live ⟨c, hc⟩
  have hid : id ∉ ids := fun hmem ↦ by
    obtain ⟨c₁, hc₁⟩ := hlive₁
    cases (h₂.new id hmem).symm.trans hc₁
  have hlive₂ : e₂.Live id := h₂.live hid hlive₁
  refine Succeeds.bind ((gives_chooseConstraint_contests id c.options).succeeds
    (unfailing_chooseConstraint _ _ _)) fun chosen e₃ ⟨h₃, hchosen⟩ ↦ ?_
  obtain ⟨winner, _⟩ := chosen
  refine Succeeds.bind (succeeds_abandonSome id hid fun k ↦ k != id && some k != winner)
    fun _ e₄ ⟨h₄, hgone⟩ ↦ ?_
  have hcontests : Contests ids id e₂ e₄ := trans_of (Contests ids id) h₃ h₄
  have hloses : ∀ k ∈ ids, some k ≠ winner → e₄.constraints.get? k = none := fun k hk hlost ↦ by
    refine hgone k hk ?_
    have hne : k ≠ id := fun heq ↦ hid (heq ▸ hk)
    simp [hne, hlost]
  have hrefits : ∀ e₅, Contests ids id e₄ e₅ →
      (∀ k, some k = winner → k ∈ ids → e₅.constraints.get? k = none) → Refits id e e₅ := by
    intro e₅ h₅ hwon
    have hrefit : Refits id e₁ e₅ := by
      refine h₂.refits (trans_of (Contests ids id) hcontests h₅) hid fun k hk ↦ ?_
      by_cases hwinner : some k = winner
      · exact hwon k hwinner hk
      · exact h₅.gone k (hloses k hk hwinner)
    exact trans_of (Refits id) h₁.refits hrefit
  have hfinish : ∀ e₅, Refits id e e₅ →
      Yields e₅ (if c.enabled then enable r id false else pure ()) (Reselects r id e) :=
    fun e₅ h₅ _ ↦ .inr (.inr ⟨c, e₅, hc, h₅, rfl⟩)
  cases winner with
  | none => exact hfinish e₄ (hrefits e₄ (refl_of (Contests ids id) e₄) nofun)
  | some w =>
    dsimp only
    split
    · next hne =>
      have hmem : w ∈ ids := (hchosen w rfl).resolve_right (by simpa using hne)
      refine Yields.bind (yields_transplantInto hmem (by simpa using hne) (hcontests.live hlive₂))
        (fun err e₅ ⟨h₅, hgone₅⟩ ↦ ?_) fun _ e₅ ⟨h₅, hgone₅⟩ ↦ ?_
      · exact .inl ⟨⟨err, rfl⟩, hrefits e₅ h₅ fun k hk _ ↦ by cases hk; exact hgone₅⟩
      · exact hfinish e₅ (hrefits e₅ h₅ fun k hk _ ↦ by cases hk; exact hgone₅)
    · next heq =>
      have heq : w = id := by simpa using heq
      refine hfinish e₄ (hrefits e₄ (refl_of (Contests ids id) e₄) fun k hk hmem ↦ ?_)
      cases hk
      exact absurd (heq ▸ hmem) hid

/-- **What selecting anew comes to.** -/
theorem yields_reevaluate (id : ConstraintId) : Yields e (reevaluate r id) (Reselects r id e) := by
  refine .constraintAt_bind (fun _ ↦ .inl ⟨⟨_, rfl⟩, refl_of (Refits id) e⟩) fun c hc ↦ ?_
  refine .get_bind (.lift_bind ?_)
  have hreport : SameSettings e (Step.report (.reevaluation id (e.solverName c.solver)) e).2 :=
    sameSettings_of_constraints rfl
  generalize (Step.report (.reevaluation id (e.solverName c.solver)) e).2 = e₁ at hreport
  refine Succeeds.bind ((operating_filterCandidates (R := SameSettings) c.options c.predicate _).succeeds
    (unfailing_filterCandidates _ _ _)) fun filtered e₂ hfilter ↦ ?_
  have h₂ : SameSettings e e₂ := trans_of SameSettings hreport hfilter
  dsimp only
  split
  · exact .pure (.inr (.inl ⟨rfl, h₂⟩))
  refine Succeeds.bind (succeeds_buildCandidates _ _ _) fun built e₃ h₃ ↦ ?_
  obtain ⟨ids, errors⟩ := built
  split
  · next hempty =>
    obtain rfl : ids = [] := List.isEmpty_iff.1 hempty
    refine .pure (.inr (.inl ⟨rfl, fun k ↦ ?_⟩))
    exact (h₃.resets k List.not_mem_nil).trans (h₂ k)
  exact yields_contend hc h₂ h₃

end Call

end LiveConstraints

import LiveConstraints.Proofs.Transplanting
import Mathlib.Data.List.Nodup
import Mathlib.Data.Set.Basic
/-!
# Selecting a solver keeps the invariant

Candidates are off except while they are measured, and measuring one touches no other. So a selection
brings nothing on (`Engine.Rests`), and the winner, which stays, may be moved into the constraint that
is reevaluated, which is off as well.
-/

namespace LiveConstraints

open Engine

variable {e e' e'' : Engine} {r : Reentry} {id : ConstraintId} {c : Constraint} {s : SolverId}
  {x : VarId} {p : Primitive}

/-! ### Constraints that stay off -/

namespace Engine

/-- No constraint comes on, and the given ones do not go. -/
structure Rests (kept : Set ConstraintId) (e e' : Engine) : Prop where
  modifies : Modifies e e'
  off : ∀ id, e.Off id → e'.Off id
  live : ∀ id ∈ kept, e.Live id → e'.Live id

variable {kept kept' : Set ConstraintId}

instance : IsPreorder Engine (Rests kept) where
  refl e := ⟨.refl e, fun _ h ↦ h, fun _ _ h ↦ h⟩
  trans _ _ _ h h' := ⟨h.modifies.trans h'.modifies, fun id hoff ↦ h'.off id (h.off id hoff),
    fun id hid hlive ↦ h'.live id hid (h.live id hid hlive)⟩

theorem Rests.sound (h : Rests kept e e') (hs : e.Sound) : e'.Sound := h.modifies.sound hs

theorem Rests.mono (h : Rests kept e e') (hkept : kept' ⊆ kept) : Rests kept' e e' :=
  ⟨h.modifies, h.off, fun id hid ↦ h.live id (hkept hid)⟩

theorem Detaches.rests (h : Detaches e e') : Rests kept e e' :=
  ⟨h.modifies, fun id hoff ↦ by rwa [Off, h.constraints],
    fun id _ hlive ↦ by rwa [Live, h.constraints]⟩

theorem Abandons.live (h : Abandons id e e') {id' : ConstraintId} (hne : id' ≠ id)
    (hlive : e.Live id') : e'.Live id' := by
  rwa [Live, h.constraints, if_neg hne]

theorem Abandons.rests (h : Abandons id e e') (hid : id ∉ kept) : Rests kept e e' := by
  refine ⟨h.modifies, fun id' hoff c hc ↦ ?_, fun id' hid' ↦ h.live ?_⟩
  · rw [h.constraints] at hc
    split at hc
    · cases hc
    · exact hoff c hc
  · rintro rfl
    exact hid hid'

theorem Disables.off (h : Disables id e e') : e'.Off id := by
  intro c hc
  rw [h.constraints, if_pos rfl] at hc
  obtain ⟨c₀, -, rfl⟩ := Option.map_eq_some_iff.1 hc
  rfl

theorem Touches.rests (h : Touches id e e') (hoff : e'.Off id) : Rests kept e e' := by
  refine ⟨h.modifies, fun id' hoff' ↦ ?_, fun id' _ ↦ h.live id'⟩
  by_cases hid : id' = id
  · rwa [hid]
  · rwa [Off, h.others id' hid]

theorem Disables.rests (h : Disables id e e') : Rests kept e e' := h.touches.rests h.off

end Engine

namespace Call

/-! ### Candidates -/

/-- The solvers are only looked at. -/
theorem detaches_filterCandidates (options : ConstraintOptions) (predicate : Expr)
    (solvers : List SolverId) : Within Detaches e (filterCandidates options predicate solvers) := by
  refine (reads_inspectPredicate _ _).attempt.bind_of (fun _ ↦ Recalls.detaches) fun _ _ _ _ ↦ .get_bind ?_
  refine Within.bind (.forIn fun s _ acc e₁ _ ↦ .get_bind ?_) fun _ _ _ _ ↦ .pure _
  dsimp only
  split
  · exact .pure _
  · split
    · exact .pure _
    · split
      · exact .lift_bind ⟨Step.within_report _, rfl⟩ fun _ _ _ _ ↦ .pure _
      · exact .pure _

/-- **Building candidates.** They are new, and each is another one. -/
theorem gives_buildCandidates (hs : e.Sound) {options : ConstraintOptions}
    (ho : AdmissibleOptions options) (predicate : Expr) (solvers : List SolverId) :
    Gives Modifies e (buildCandidates options predicate solvers) fun built _ ↦
      built.1.Nodup ∧ ∀ id ∈ built.1, e.constraints.next.index ≤ id.index := by
  refine (Gives.forIn (P := fun acc e' ↦ acc.1.Nodup ∧ ∀ id ∈ acc.1,
    e.constraints.next.index ≤ id.index ∧ id.index < e'.constraints.next.index) (by simp)
    fun s _ acc e₁ h₁ hacc ↦ ?_).bind fun _ _ _ hacc ↦
      .pure ⟨hacc.1, fun id hid ↦ (hacc.2 id hid).1⟩
  have hbuild := gives_build (h₁.sound hs) ho predicate s .always
  refine hbuild.within.attempt.bind_gives fun result e₂ hrun h₂ ↦ ?_
  -- the earlier ones have smaller numbers
  have hearlier : ∀ id ∈ acc.1, e.constraints.next.index ≤ id.index ∧
      id.index < e₂.constraints.next.index := fun id hid ↦
    ⟨(hacc.2 id hid).1, Nat.lt_of_lt_of_le (hacc.2 id hid).2 h₂.next_le⟩
  cases result with
  | ok new =>
    obtain ⟨hle, hlt⟩ := hbuild.result new e₂ (of_attempt_ok hrun)
    have hnew : new ∉ acc.1 := fun hmem ↦
      Nat.lt_irrefl _ (Nat.lt_of_lt_of_le (hacc.2 new hmem).2 hle)
    refine .pure ⟨List.nodup_append_comm.2 (hacc.1.cons hnew), fun id hid ↦ ?_⟩
    rcases List.mem_append.1 hid with hid | hid
    · exact hearlier id hid
    · rw [List.mem_singleton.1 hid]
      exact ⟨Nat.le_trans h₁.next_le hle, hlt⟩
  | error _ => exact .pure ⟨hacc.1, hearlier⟩

/-- Abandoning some of several constraints, but none of those to be kept. -/
theorem rests_abandonSome (hs : e.Sound) (ids : List ConstraintId) {q : ConstraintId → Bool}
    (hq : ∀ id ∈ kept, q id = false) : Within (Rests kept) e (forIn ids PUnit.unit fun id _ ↦
      if q id then do
        Step.abandon id
        pure (.yield PUnit.unit)
      else pure (.yield PUnit.unit)) := by
  refine .forIn fun id _ _ e₁ h₁ ↦ ?_
  split
  · next hid =>
    refine .lift_bind ((Step.abandon_spec (h₁.sound hs) id).mono fun _ h ↦ h.rests fun hmem ↦ ?_)
      fun _ _ _ _ ↦ .pure _
    rw [hq id hmem] at hid
    cases hid
  · exact .pure _

theorem unfailing_trial (id : ConstraintId) : Unfailing (trial r id) :=
  (unfailing_attempt _).bind fun result ↦ (Unfailing.lift _).bind fun _ ↦ .pure result

/-- A candidate that was tried is off again. -/
theorem rests_trial (hs : e.Sound) (id : ConstraintId) : Within (Rests kept) e (trial r id) := by
  have htrial : Gives (Touches id) e (trial r id) fun _ e' ↦ e'.Off id := by
    refine (touches_enable_compare hs).attempt.bind_gives fun result e₁ _ h₁ ↦ ?_
    have hdisable := Within.lift (Step.disable_spec (h₁.modifies.sound hs) id)
    exact hdisable.bind_gives_of (fun _ h ↦ h.touches) fun _ e₂ _ h₂ ↦ .pure h₂.off
  exact htrial.returns (unfailing_trial id) fun _ _ h hoff ↦ h.rests hoff

/-- **Measuring** a candidate. -/
theorem rests_measure (hs : e.Sound) (id : ConstraintId) (s : SolverId) :
    Within (Rests kept) e (measure r id s) := by
  refine .get_bind ?_
  have hs₀ : Sound { e with guards := { e.guards with current := some (id, s) } } :=
    hs.aside rfl rfl rfl (hs.tame.beside rfl rfl rfl rfl rfl)
  have htrial : Within (Rests kept) _ (trial r id) := rests_trial hs₀ id
  refine .bracket htrial (unfailing_trial id _) (fun e₁ h₁ ↦ ?_) fun _ _ _ _ ↦
    .get_bind (.pure _)
  exact ⟨h₁.modifies.bracket (f := fun g ↦ { g with current := some (id, s) })
    (g := fun g ↦ { g with current := e.guards.current }) fun _ ↦ rfl, h₁.off, h₁.live⟩

/-- All candidates are switched off. -/
theorem gives_disableAll (hs : e.Sound) (ids : List ConstraintId) :
    Gives (Rests kept) e (forIn ids PUnit.unit fun id _ ↦ do
      Step.disable id
      pure (.yield PUnit.unit)) fun _ e' ↦ ∀ id ∈ ids, e'.Off id := by
  induction ids generalizing e with
  | nil => exact .pure (by simp)
  | cons id ids ih =>
    rw [List.forIn_cons, bind_assoc]
    refine (Within.lift (Step.disable_spec hs id)).bind_gives_of (fun _ ↦ Disables.rests)
      fun _ e₁ _ h₁ ↦ ?_
    have hrest := ih (h₁.modifies.sound hs)
    refine ⟨hrest.within, fun a e' hrun id' hid' ↦ ?_⟩
    rcases List.mem_cons.1 hid' with rfl | hid'
    · exact (hrest.within.of_ok hrun).off id' h₁.off
    · exact hrest.result a e' hrun id' hid'

theorem selectBest_mem {κ : Type} {order : List Metric} {measured : List (κ × Measurement)} {k : κ}
    (h : selectBest order measured = some k) : k ∈ measured.map Prod.fst := by
  cases measured with
  | nil => cases h
  | cons first rest =>
    have hfold : ∀ (l : List (κ × Measurement)) (best : κ × Measurement),
        l.foldl (fun best candidate ↦
          if candidate.2.betterThan order best.2 then candidate else best) best ∈ best :: l := by
      intro l
      induction l with
      | nil => exact fun best ↦ List.mem_cons_self
      | cons a l ih =>
        intro best
        rw [List.foldl_cons]
        split
        · exact List.mem_cons_of_mem _ (ih a)
        · rcases List.mem_cons.1 (ih best) with heq | hmem
          · rw [heq]
            exact List.mem_cons_self
          · exact List.mem_cons_of_mem _ (List.mem_cons_of_mem _ hmem)
    cases h
    exact List.mem_map_of_mem (hfold rest first)

/-- What is known of the candidates that were measured while the rest is still to come. -/
structure Measured (candidates rest : List ConstraintId)
    (measured : List (ConstraintId × Measurement)) (e : Engine) : Prop where
  suffix : rest <:+ candidates
  mem : ∀ m ∈ measured, m.1 ∈ candidates
  live : candidates.Nodup → ∀ m ∈ measured, m.1 ∉ rest ∧ e.Live m.1

/-- A candidate is passed over; the others do not go. -/
theorem Measured.pass {candidates rest : List ConstraintId}
    {measured : List (ConstraintId × Measurement)}
    (h : Measured candidates (id :: rest) measured e)
    (hlive : ∀ id', id' ≠ id → e.Live id' → e'.Live id') : Measured candidates rest measured e' where
  suffix := (List.suffix_cons id rest).trans h.suffix
  mem := h.mem
  live hnodup m hm := by
    obtain ⟨hmem, hm⟩ := h.live hnodup m hm
    rw [List.mem_cons, not_or] at hmem
    exact ⟨hmem.2, hlive m.1 hmem.1 hm⟩

/-- A candidate was measured, and none goes. -/
theorem Measured.add {candidates rest : List ConstraintId}
    {measured : List (ConstraintId × Measurement)}
    (h : Measured candidates (id :: rest) measured e) (m : Measurement)
    (hlive : ∀ id', e.Live id' → e'.Live id') (hid : e.Live id) :
    Measured candidates rest (measured ++ [(id, m)]) e' where
  suffix := (List.suffix_cons id rest).trans h.suffix
  mem m' hm' := by
    rcases List.mem_append.1 hm' with hm' | hm'
    · exact h.mem m' hm'
    · rw [List.mem_singleton.1 hm']
      exact h.suffix.subset List.mem_cons_self
  live hnodup m' hm' := by
    rcases List.mem_append.1 hm' with hm' | hm'
    · exact (h.pass fun id' _ ↦ hlive id').live hnodup m' hm'
    · rw [List.mem_singleton.1 hm']
      exact ⟨(List.nodup_cons.1 (hnodup.sublist h.suffix.sublist)).1, hlive id hid⟩

/-- **Choosing.** All candidates are off, and the winner is one of them. It exists, unless a candidate
was named twice. -/
theorem gives_chooseConstraint (hs : e.Sound) (candidates : List ConstraintId)
    (keep : Option ConstraintId) (options : ConstraintOptions) :
    Gives (Rests ∅) e (chooseConstraint r candidates keep options) fun outcome e' ↦
      ∀ best, outcome.1 = some best → best ∈ candidates ∧ (candidates.Nodup → e'.Live best) ∧
        ∀ id ∈ candidates, e'.Off id := by
  refine (gives_disableAll hs candidates).bind fun _ e₁ h₁ hoff ↦ ?_
  refine (Gives.forIn_all (P := fun rest acc e' ↦ Measured candidates rest acc.1 e')
    ⟨List.suffix_refl _, by simp, by simp⟩
    fun id rest acc e₂ h₂ hacc ↦ .get_bind ?_).bind fun acc e₂ h₂ hacc ↦ .get_bind ?_
  · have hs₂ := h₂.sound (h₁.sound hs)
    dsimp only
    split
    · exact .pure ⟨_, rfl, hacc.pass fun _ _ h ↦ h⟩
    · next c hc =>
      have hmeasure : Within (Rests Set.univ) e₂ (measure r id c.solver) :=
        rests_measure hs₂ id c.solver
      refine hmeasure.bind_gives_of (fun _ h ↦ h.mono (Set.empty_subset _)) fun result e₃ _ h₃ ↦ ?_
      have hlive : ∀ id', e₂.Live id' → e₃.Live id' := fun id' ↦ h₃.live id' (Set.mem_univ _)
      cases result with
      | ok m => exact .pure ⟨_, rfl, hacc.add m hlive ⟨c, hc⟩⟩
      | error err =>
        dsimp only
        split
        · refine Within.bind_gives_of (.lift (Step.abandon_spec (h₃.sound hs₂) id))
            (fun _ h ↦ h.rests (Set.notMem_empty id)) fun _ _ _ h₄ ↦ .pure ⟨_, rfl, hacc.pass ?_⟩
          exact fun id' hne hid' ↦ h₄.live hne (hlive id' hid')
        · exact .pure ⟨_, rfl, hacc.pass fun id' _ ↦ hlive id'⟩
  · dsimp only
    split
    · exact .pure nofun
    · next best hbest =>
      obtain ⟨m, hm, rfl⟩ := List.mem_map.1 (selectBest_mem hbest)
      have hoff₂ : ∀ id ∈ candidates, e₂.Off id := fun id hid ↦ h₂.off id (hoff id hid)
      refine .get_bind ?_
      split
      · refine .pure fun b hb ↦ ?_
        cases hb
        exact ⟨hacc.mem m hm, fun hnodup ↦ (hacc.live hnodup m hm).2, hoff₂⟩
      · have hreport : ∀ event, Within Detaches e₂ (liftM (Step.report event)) :=
          fun _ ↦ .lift ⟨Step.within_report _, rfl⟩
        refine (hreport _).bind_gives_of (fun _ ↦ Detaches.rests) fun _ e₃ _ h₃ ↦ .pure fun b hb ↦ ?_
        cases hb
        have hrests : Rests Set.univ e₂ e₃ := h₃.rests
        exact ⟨hacc.mem m hm,
          fun hnodup ↦ hrests.live m.1 (Set.mem_univ _) (hacc.live hnodup m hm).2,
          fun id hid ↦ hrests.off id (hoff₂ id hid)⟩

/-! ### Selecting and maintaining -/

/-- **Selecting anew.** -/
theorem evolves_reevaluate (hr : r.Lawful) (hs : e.Sound) (id : ConstraintId) :
    Within Evolves e (reevaluate r id) := by
  refine .constraintAt_bind fun c hc ↦ .get_bind ?_
  refine .lift_bind_of (Step.within_report _) (fun _ ↦ Modifies.evolves) fun _ e₁ _ h₁ ↦ ?_
  have hs₁ := h₁.sound hs
  refine (detaches_filterCandidates _ _ _).bind_of (fun _ h ↦ h.modifies.evolves)
    fun solvers e₂ _ h₂ ↦ ?_
  have hs₂ := h₂.sound hs₁
  dsimp only
  split
  · exact .pure _
  · have hbuild := gives_buildCandidates hs₂ (hs.tame.options id c hc) c.predicate solvers.1
    refine hbuild.within.bind_of (fun _ ↦ Modifies.evolves) fun built e₃ hrun₃ h₃ ↦ ?_
    have hs₃ := h₃.sound hs₂
    -- the candidates that were built are new, so the constraint is none of them
    obtain ⟨hnodup, hnew⟩ := hbuild.result _ _ hrun₃
    have hfresh : id ∉ built.1 := fun hid ↦ Nat.not_lt_of_le (hnew id hid)
      (Nat.lt_of_lt_of_le (Arena.lt_next_of_get? hc) (h₁.trans h₂.modifies).next_le)
    have hdistinct : (built.1 ++ [id]).Nodup := List.nodup_append_comm.2 (hnodup.cons hfresh)
    split
    · exact .pure _
    · have hchoose := gives_chooseConstraint (r := r) hs₃ (built.1 ++ [id]) (some id) c.options
      refine hchoose.within.bind_of (fun _ h ↦ h.modifies.evolves) fun chosen e₄ hrun₄ h₄ ↦ ?_
      have hwinner := hchoose.result _ _ hrun₄
      obtain ⟨winner, _⟩ := chosen
      have hs₄ := h₄.sound hs₃
      have habandon : Within (Rests {w | winner = some w}) e₄ _ := rests_abandonSome hs₄ built.1
        (q := fun other ↦ other != id && some other != winner) (by rintro w rfl; simp)
      refine habandon.bind_of (fun _ h ↦ h.modifies.evolves) fun _ e₅ _ h₅ ↦ ?_
      have hs₅ := h₅.sound hs₄
      have henable : ∀ {e₆ : Engine}, e₆.Sound → Within Evolves e₆
          (if c.enabled = true then enable r id false else pure ()) := by
        intro e₆ hs₆
        split
        · exact evolves_enable hr hs₆ id false
        · exact .pure _
      cases winner with
      | some w =>
        dsimp only
        split
        · next hne =>
          obtain ⟨hmem, hlive, hoff⟩ := hwinner w rfl
          have htransplant := modifies_transplantInto hs₅ (by simpa using hne)
            (h₅.live w rfl (hlive hdistinct)) (h₅.off w (hoff w hmem))
            (h₅.off id (hoff id (by simp)))
          refine htransplant.bind_of (fun _ ↦ Modifies.evolves) fun _ e₆ _ h₆ ↦ ?_
          exact henable (h₆.sound hs₅)
        · exact henable hs₅
      | none => exact henable hs₅

/-- Work that may be done is deferred. -/
theorem evolves_defer {work : Deferred}
    (h : ∀ handler errors, work = .handle handler errors → Admissible handler.actions) :
    Step.Within Evolves e (Step.defer work) := by
  refine ⟨.single (.aside rfl rfl rfl rfl rfl fun ht ↦
    ⟨ht.evaluator, ht.hooks, ht.options, ?_, ht.pending⟩), rfl, id⟩
  intro handler errors hmem
  rcases List.mem_append.1 hmem with hmem | hmem
  · exact ht.deferred handler errors hmem
  · exact h handler errors (List.mem_singleton.1 hmem).symm

theorem evolves_deferFailures {options : ConstraintOptions} (ho : AdmissibleOptions options)
    (errors : List EngineError) : Step.Within Evolves e (deferFailures options errors) := by
  refine evolves_defer fun handler errors' heq ↦ ?_
  split at heq
  · next handler' hhandler =>
    cases heq
    exact ho handler hhandler
  · cases heq

theorem rests_contest (hs : e.Sound) (options : ConstraintOptions)
    (candidates : List ConstraintId) : Within (Rests ∅) e (contest r options candidates) := by
  have habandon : ∀ {e₁ : Engine} (chosen : Option ConstraintId × List EngineError), e₁.Sound →
      Within (Rests ∅) e₁ (do
        for other in candidates do
          if some other != chosen.1 then Step.abandon other
        return (chosen.1, chosen.2) : Call (Option ConstraintId × List EngineError)) :=
    fun _ hs₁ ↦ (rests_abandonSome hs₁ candidates (by simp)).bind fun _ _ _ _ ↦ .pure _
  unfold contest
  dsimp only
  split
  · exact (gives_chooseConstraint hs candidates none options).within.bind
      fun chosen _ _ h₁ ↦ habandon chosen (h₁.sound hs)
  · refine Within.bind (m := pure (candidates.head?, [])) (.pure _) fun chosen _ _ h₁ ↦ ?_
    exact habandon chosen (h₁.sound hs)

theorem evolves_launch (hr : r.Lawful) (hs : e.Sound) (options : ConstraintOptions)
    (id : ConstraintId) : Within Evolves e (launch r options id) := by
  unfold launch
  split
  · exact .pure _
  · refine (modifies_changeConstraint fun _ ↦ .bookkeeping).bind_of (fun _ ↦ Modifies.evolves)
      fun _ e₁ _ h₁ ↦ ?_
    have hs₁ := h₁.sound hs
    refine (evolves_enable hr hs₁ id false).attempt.bind fun enabled e₂ _ h₂ ↦ ?_
    refine .lift_bind_of (Step.within_modifyConstraint fun _ ↦ .bookkeeping) (fun _ ↦ Modifies.evolves)
      fun _ e₃ _ h₃ ↦ ?_
    cases enabled with
    | ok _ => exact .pure _
    | error err =>
      exact .lift_bind_of (Step.abandon_spec (h₃.sound (h₂.sound hs₁)) id)
        (fun _ h ↦ h.modifies.evolves) fun _ _ _ _ ↦ .pure _

/-- **Maintaining.** -/
theorem evolves_maintain (hr : r.Lawful) (hs : e.Sound) {options : ConstraintOptions}
    (ho : AdmissibleOptions options) (predicate : Expr) :
    Within Evolves e (maintain r predicate options) := by
  refine .get_bind ?_
  refine (detaches_filterCandidates options predicate _).bind_of
    (fun _ h ↦ h.modifies.evolves) fun solvers e₁ _ h₁ ↦ ?_
  have hs₁ := h₁.sound hs
  refine (gives_buildCandidates hs₁ ho predicate _).within.bind_of
    (fun _ ↦ Modifies.evolves) fun built e₂ _ h₂ ↦ ?_
  have hs₂ := h₂.sound hs₁
  refine (rests_contest hs₂ options built.1).bind_of (fun _ h ↦ h.modifies.evolves)
    fun chosen e₃ _ h₃ ↦ ?_
  have hs₃ := h₃.sound hs₂
  obtain ⟨_ | id, unmeasured⟩ := chosen
  · exact .lift_bind (evolves_deferFailures ho _) fun _ _ _ _ ↦ .pure _
  · refine (evolves_launch hr hs₃ options id).bind fun enabled e₄ _ _ ↦ ?_
    cases enabled with
    | ok _ => exact .pure _
    | error err => exact .lift_bind (evolves_deferFailures ho _) fun _ _ _ _ ↦ .pure _

end Call

end LiveConstraints

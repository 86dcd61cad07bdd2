import LiveConstraints.Proofs.Matching
import LiveConstraints.Proofs.Reentrant.Lasting
/-!
# Passing on and selecting the same

With ways back into the engine that match, each operation that leads back matches itself, wherever the
relation is one that whatever is asked stays within. The proofs follow the sequence of the parts; each
part starts at an engine with the property since the one before it has kept it.
-/

namespace LiveConstraints

open Engine

variable {I : Engine → Prop} {R : Engine → Engine → Prop} [Lasting R] [Persists I R] {e : Engine}
  {r r' : Reentry}

namespace Call

/-! ### Propagation -/

theorem matches_splitInto (hr : r.Mirrors I R r') (v : Value) (parts : List (String × VarId)) :
    Matches I R e (splitInto r v parts) (splitInto r' v parts) := by
  refine .forM fun part _ e₁ ↦ ?_
  obtain ⟨name, part⟩ := part
  dsimp only
  cases v.part? name with
  | some number => exact (hr.suggest _ _ _ _ _).bind fun _ _ _ ↦ .pure _
  | none => exact .pure _

theorem matches_updateUnbound (hr : r.Mirrors I R r') (x : VarId) (v : Value) :
    Matches I R e (updateUnbound r x v) (updateUnbound r' x v) := by
  refine .variableAt_bind fun w _ ↦ ?_
  refine .within_bind (reads_replacesComposite x _ _) fun replaces e₁ _ ↦ ?_
  have hstore : ∀ e₂, Matches I R e₂ (store x v) (store x v) := fun _ ↦ .of_within (Storing.store x v)
  cases replaces with
  | true =>
    refine .get_bind ?_
    cases e₁.guards.splitting with
    | true => exact hstore e₁
    | false =>
      refine .step_bind (Heedless.guards _ rfl) fun _ e₂ ↦ ?_
      refine (matches_splitInto hr v w.parts.entries).attempt.bind fun result e₃ _ ↦ ?_
      refine .step_bind (Heedless.guards _ rfl) fun _ e₄ ↦ ?_
      exact (Matches.ofExcept result).bind fun _ e₅ _ ↦ hstore e₅
  | false =>
    refine .get_bind ((hstore e₁).bind fun _ e₂ _ ↦ ?_)
    refine Matches.bind (.forIn fun id _ _ e₃ ↦ ?_) fun _ _ _ ↦ .pure _
    exact (hr.recalculate e₃ id).bind fun _ _ _ ↦ .pure _

theorem matches_updateConnected (hr : r.Mirrors I R r') (x : VarId) :
    Matches I R e (updateConnected r x) (updateConnected r' x) := by
  refine .variableAt_bind fun w _ ↦ .get_bind ?_
  refine Matches.bind (.forIn fun y _ _ e₁ ↦ .get_bind ?_) fun _ _ _ ↦ .pure _
  cases e₁.vars.contains y with
  | true =>
    refine .step_bind (Step.reads_read y) fun v e₂ ↦ ?_
    exact (hr.suggest e₂ y v _ _).bind fun _ _ _ ↦ .pure _
  | false => exact .pure _

theorem matches_putBack (hr : r.Mirrors I R r') (x : VarId) (old : Value) :
    Matches I R e (putBack r x old) (putBack r' x old) := by
  refine (hr.suggest e x old _ _).attempt.bind fun result e₁ _ ↦ ?_
  cases result with
  | ok _ => exact .pure _
  | error err => exact .get_bind (.of_within (.lift (Step.operating_report _)))

theorem matches_spread (hr : r.Mirrors I R r') (x : VarId) (v old : Value) (origin : Origin) :
    Matches I R e (spread r x v old origin) (spread r' x v old origin) := by
  refine .get_bind ?_
  cases e.guards.storing.contains x with
  | true => exact .pure _
  | false =>
    refine .step_bind (Heedless.guards _ rfl) fun _ e₁ ↦ ?_
    have hupdate : Matches I R e₁ (do
        updateDownstream x v
        updateUnbound r x v
        updateConnected r x) (do
        updateDownstream x v
        updateUnbound r' x v
        updateConnected r' x) := by
      refine .within_bind (operating_updateDownstream x v) fun _ e₂ _ ↦ ?_
      exact (matches_updateUnbound hr x v).bind fun _ e₃ _ ↦ matches_updateConnected hr x
    refine hupdate.attempt.bind fun result e₂ _ ↦ ?_
    refine .step_bind (Heedless.guards _ rfl) fun _ e₃ ↦ ?_
    cases result with
    | ok _ => exact .pure _
    | error err =>
      by_cases horigin : origin = .source
      · simp only [horigin, if_true]
        exact (matches_putBack hr x old).bind fun _ _ _ ↦ .fail _
      · simp only [horigin, if_false]
        exact .fail _

theorem matches_propagate (hr : r.Mirrors I R r') (x : VarId) (v old : Value) (origin : Origin)
    (force : Bool) :
    Matches I R e (propagate r x v old origin force) (propagate r' x v old origin force) := by
  cases force with
  | true => exact matches_spread hr x v old origin
  | false =>
    refine .within_bind (reads_storedValue x) fun stored e₁ _ ↦ ?_
    cases v.near stored with
    | true => exact .pure _
    | false => exact matches_spread hr x v old origin

/-! ### Switching on and rebuilding -/

theorem matches_reconcile (hr : r.Mirrors I R r') (compare : Bool) (xs : List VarId) :
    Matches I R e (reconcile r compare xs) (reconcile r' compare xs) := by
  induction xs generalizing e with
  | nil => exact .pure _
  | cons x xs ih =>
    refine .get_bind ?_
    cases e.vars.get? x with
    | none => exact ih
    | some v =>
      refine .step_bind (Step.reads_read x) fun new e₁ ↦ ?_
      dsimp only
      cases !compare && !v.shadow.near new with
      | true =>
        refine .within_bind (operating_updateDownstream x new) fun _ e₂ _ ↦ ?_
        refine (matches_propagate hr x new v.shadow .propagation false).bind fun _ e₃ _ ↦ ?_
        exact ih.bind fun _ _ _ ↦ .pure _
      | false => exact ih.bind fun _ _ _ ↦ .pure _

theorem matches_enable (hr : r.Mirrors I R r') (id : ConstraintId) (compare : Bool) :
    Matches I R e (enable r id compare) (enable r' id compare) := by
  refine .constraintAt_bind fun c hc ↦ ?_
  cases c.enabled with
  | true => exact .pure _
  | false =>
    dsimp only
    cases c.primitives.isEmpty && !c.isTest with
    | true => exact .get_bind (.fail _)
    | false =>
      have hswitch : Matches I R e (switch id c) (switch id c) := .of_within (Switching.switch hc)
      refine hswitch.bind fun result e₂ _ ↦ ?_
      cases result with
      | error err =>
        exact .of_within (.lift_bind (Switching.deactivate id c) fun _ _ _ _ ↦ .fail _)
      | ok _ =>
        refine .step_bind Step.operating_elapsed fun elapsedMs e₃ ↦ ?_
        refine .step_bind (Step.operating_reportSolve _ _ _) fun _ e₄ ↦ ?_
        refine .constraintAt_bind fun c₄ _ ↦ ?_
        refine (matches_reconcile hr compare c₄.vars).bind fun changes e₅ _ ↦ ?_
        exact .of_within (stays_changeConstraint fun _ ↦ .bookkeeping)

theorem matches_enableTransplanted (hr : r.Mirrors I R r') (id : ConstraintId) (s : SolverId)
    (ps : List Primitive) :
    Matches I R e (enableTransplanted r id s ps) (enableTransplanted r' id s ps) := by
  refine (matches_enable hr id false).attempt.bind fun result e₁ _ ↦ ?_
  cases result with
  | ok _ => exact .pure _
  | error err =>
    refine .step_bind (Switching.disable id) fun _ e₂ ↦ ?_
    refine .within_bind (operating_modifyAll fun p _ ↦ ?_) fun _ e₃ _ ↦ matches_enable hr id false
    exact ((Solver.sameFlags_setEnabled p none).trans (Solver.sameFlags_setEnabled p _)).operates

theorem matches_reengage (hr : r.Mirrors I R r') (id : ConstraintId) (c : Constraint)
    (reached : List VarId) : Matches I R e (reengage r id c reached) (reengage r' id c reached) := by
  refine .within_bind (operating_transplants _ _) fun ps e₁ _ ↦ ?_
  refine (matches_enableTransplanted hr id c.solver ps).attempt.bind fun result e₂ _ ↦ ?_
  refine .within_bind (operating_modifyAll fun p _ ↦ ?_) fun _ _ _ ↦ .ofExcept _
  exact ((Solver.sameFlags_setEnabled p none).trans (Solver.sameFlags_removePrimitive p)).operates

theorem matches_recalculate (hr : r.Mirrors I R r') (id : ConstraintId) :
    Matches I R e (recalculate r id) (recalculate r' id) := by
  rw [recalculate_eq, recalculate_eq]
  refine .constraintAt_bind fun c hc ↦ ?_
  cases henabled : c.enabled with
  | false => exact .pure _
  | true =>
    exact .within_bind (Reentrant.reroute hc henabled) fun reached e₁ _ ↦
      matches_reengage hr id c reached

/-! ### Selection -/

theorem matches_measure (hr : r.Mirrors I R r') (id : ConstraintId) (s : SolverId) :
    Matches I R e (measure r id s) (measure r' id s) := by
  have htrial : ∀ e₁, Matches I R e₁ (trial r id) (trial r' id) := by
    intro e₁
    refine (matches_enable hr id true).attempt.bind fun result e₂ _ ↦ ?_
    exact .step_bind (Switching.disable id) fun _ _ ↦ .pure _
  refine .get_bind (.step_bind (Heedless.guards _ rfl) fun _ e₁ ↦ ?_)
  refine (htrial e₁).bind fun result e₂ _ ↦ ?_
  exact .step_bind (Heedless.guards _ rfl) fun _ e₃ ↦ .get_bind (.pure _)

theorem matches_chooseConstraint (hr : r.Mirrors I R r') (candidates : List ConstraintId)
    (keep : Option ConstraintId) (options : ConstraintOptions) :
    Matches I R e (chooseConstraint r candidates keep options)
      (chooseConstraint r' candidates keep options) := by
  refine .within_bind (.forIn fun id _ _ e₁ _ ↦ ?_) fun _ e₁ _ ↦ ?_
  · exact .lift_bind (Switching.disable id) fun _ _ _ _ ↦ .pure _
  refine Matches.bind (.forIn fun id _ acc e₂ ↦ .get_bind ?_) fun acc e₂ _ ↦ .get_bind ?_
  · dsimp only
    cases e₂.constraints.get? id with
    | none => exact .pure _
    | some c =>
      refine (matches_measure hr id c.solver).bind fun result e₃ _ ↦ ?_
      cases result with
      | ok m => exact .pure _
      | error err =>
        dsimp only
        cases some id != keep with
        | true => exact .step_bind (Selecting.abandon id) fun _ _ ↦ .pure _
        | false => exact .pure _
  · dsimp only
    cases selectBest (options.metrics.getD e₂.config.optimizationPriority) acc.1 with
    | none => exact .pure _
    | some best =>
      refine .get_bind ?_
      cases e₂.constraints.get? best with
      | none => exact .pure _
      | some c => exact .step_bind (Step.operating_report _) fun _ _ ↦ .pure _

theorem matches_reevaluate (hr : r.Mirrors I R r') (id : ConstraintId) :
    Matches I R e (reevaluate r id) (reevaluate r' id) := by
  refine .constraintAt_bind fun c _ ↦ .get_bind ?_
  refine .step_bind (Step.operating_report _) fun _ e₁ ↦ ?_
  refine .within_bind (operating_filterCandidates _ _ _) fun solvers e₂ _ ↦ ?_
  dsimp only
  cases solvers.1.isEmpty with
  | true => exact .pure _
  | false =>
    refine .within_bind (stays_buildCandidates _ _ _) fun built e₃ _ ↦ ?_
    cases built.1.isEmpty with
    | true => exact .pure _
    | false =>
      refine (matches_chooseConstraint hr (built.1 ++ [id]) (some id) c.options).bind
        fun chosen e₄ _ ↦ ?_
      obtain ⟨winner, _⟩ := chosen
      refine .within_bind
        (stays_abandonSome built.1 fun other ↦ other != id && some other != winner) fun _ e₅ _ ↦ ?_
      have henable : ∀ e₆, Matches I R e₆ (if c.enabled = true then enable r id false else pure ())
          (if c.enabled = true then enable r' id false else pure ()) := by
        intro e₆
        cases c.enabled with
        | true => exact matches_enable hr id false
        | false => exact .pure _
      cases winner with
      | none => exact henable e₅
      | some w =>
        dsimp only
        cases hne : w != id with
        | true =>
          have hdistinct : w ≠ id := by simpa using hne
          exact .within_bind (Selecting.transplantInto hdistinct) fun _ e₆ _ ↦ henable e₆
        | false => exact henable e₅

theorem matches_contest (hr : r.Mirrors I R r') (options : ConstraintOptions)
    (candidates : List ConstraintId) :
    Matches I R e (contest r options candidates) (contest r' options candidates) := by
  have habandon : ∀ (e₁ : Engine) (chosen : Option ConstraintId × List EngineError),
      Within R e₁ (do
        for other in candidates do
          if some other != chosen.1 then Step.abandon other
        return (chosen.1, chosen.2) : Call (Option ConstraintId × List EngineError)) :=
    fun e₁ chosen ↦ (stays_abandonSome candidates fun other ↦ some other != chosen.1).bind
      fun _ _ _ _ ↦ .pure _
  unfold contest
  dsimp only
  by_cases hseveral : 1 < candidates.length
  · rw [if_pos hseveral, if_pos hseveral]
    exact (matches_chooseConstraint hr candidates none options).bind fun chosen e₁ _ ↦
      .of_within (habandon e₁ chosen)
  · rw [if_neg hseveral, if_neg hseveral]
    exact .of_within (habandon e (candidates.head?, []))

theorem matches_launch (hr : r.Mirrors I R r') (options : ConstraintOptions) (id : ConstraintId) :
    Matches I R e (launch r options id) (launch r' options id) := by
  unfold launch
  cases options.postpone with
  | true => exact .pure _
  | false =>
    refine .within_bind (stays_changeConstraint fun _ ↦ .bookkeeping) fun _ e₁ _ ↦ ?_
    refine (matches_enable hr id false).attempt.bind fun enabled e₂ _ ↦ ?_
    refine .step_bind (Step.stays_modifyConstraint fun _ ↦ .bookkeeping) fun _ e₃ ↦ ?_
    cases enabled with
    | ok _ => exact .pure _
    | error err => exact .step_bind (Selecting.abandon id) fun _ _ ↦ .pure _

theorem matches_maintain (hr : r.Mirrors I R r') (predicate : Expr) (options : ConstraintOptions) :
    Matches I R e (maintain r predicate options) (maintain r' predicate options) := by
  refine .get_bind (.within_bind (operating_filterCandidates _ _ _) fun solvers e₁ _ ↦ ?_)
  refine .within_bind (stays_buildCandidates _ _ _) fun built e₂ _ ↦ ?_
  refine (matches_contest hr options built.1).bind fun chosen e₃ _ ↦ ?_
  obtain ⟨_ | id, unmeasured⟩ := chosen
  · exact .step_bind (Passing.defer _) fun _ _ ↦ .pure _
  · refine (matches_launch hr options id).bind fun enabled e₄ _ ↦ ?_
    cases enabled with
    | ok _ => exact .pure _
    | error err => exact .step_bind (Passing.defer _) fun _ _ ↦ .pure _

end Call

end LiveConstraints

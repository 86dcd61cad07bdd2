import LiveConstraints.Proofs.Quiescence.Watching
/-!
# What a call raises it lowers

With ways back into the engine that shadow one another, every operation of the engine does the same
while a call is in progress, and what it raised is lowered when it returns (`Call.Mimics`). Most
guards are raised around a computation that hands its failure over instead of failing
(`Call.Mimics.bracket`). A write marks a constraint and collects hooks besides; it ends with taking
both back, and nothing fails in between (`Call.mimics_suggest`).
-/

namespace LiveConstraints

open Engine

variable {α : Type} {e e' : Engine} {r r' : Reentry} {x : VarId} {id id' : ConstraintId}

/-! ### Marks -/

namespace Engine

/-- Marking a constraint marks no other one. -/
theorem marked_of_mark (h : Marked { e with
    constraints := e.constraints.modify id fun c => { c with initiating := true } } id') :
    e.Marked id' ∨ id' = id := by
  obtain ⟨c', hc', hinitiating⟩ := h
  dsimp only at hc'
  rw [Arena.get?_modify] at hc'
  split at hc'
  · next heq => exact .inr heq
  · exact .inl ⟨c', hc', hinitiating⟩

/-- A constraint of which the mark is taken back has none. -/
theorem marked_of_unmark (h : Marked { e with
    constraints := e.constraints.modify id fun c => { c with initiating := false } } id') :
    e.Marked id' ∧ id' ≠ id := by
  obtain ⟨c', hc', hinitiating⟩ := h
  dsimp only at hc'
  rw [Arena.get?_modify] at hc'
  split at hc'
  · obtain ⟨c, -, rfl⟩ := Option.map_eq_some_iff.1 hc'
    cases hinitiating
  · next hne => exact ⟨⟨c', hc', hinitiating⟩, hne⟩

/-- A constraint is marked, and then its mark is taken back. -/
theorem Resumes.unmark (h : Resumes { e with
    constraints := e.constraints.modify id fun c => { c with initiating := true } } e') :
    Resumes e { e' with
      constraints := e'.constraints.modify id fun c => { c with initiating := false } } := by
  refine ⟨⟨h.guards, ⟨h.pending.none, h.pending.some⟩, fun id' hid' ↦ ?_⟩, h.silent⟩
  obtain ⟨hmarked, hne⟩ := marked_of_unmark hid'
  exact (marked_of_mark (h.marked id' hmarked)).resolve_right hne

/-- The same, wherever hooks are collected. -/
theorem Resumes.silence (h : Resumes e e') :
    Resumes { e with pendingHooks := none } { e' with pendingHooks := none } :=
  ⟨⟨h.guards, .idle rfl rfl, h.marked⟩, h.silent⟩

end Engine

namespace Call

/-! ### Propagation -/

theorem mimics_splitInto (hr : r.Shadows r') (v : Value) (parts : List (String × VarId)) :
    Mimics e (splitInto r v parts) (splitInto r' v parts) := by
  refine .forM fun part _ e₁ ↦ ?_
  obtain ⟨name, part⟩ := part
  dsimp only
  cases v.part? name with
  | some number => exact (hr.suggest _ _ _ _ _).bind fun _ _ _ ↦ .pure _
  | none => exact .pure _

theorem mimics_updateUnbound (hr : r.Shadows r') (x : VarId) (v : Value) :
    Mimics e (updateUnbound r x v) (updateUnbound r' x v) := by
  refine .variableAt_bind fun w _ ↦ .steady_bind (reads_replacesComposite x _ _) fun replaces e₁ _ ↦ ?_
  have hstore : ∀ e₂, Mimics e₂ (store x v) (store x v) := fun _ ↦ .of_steady (steady_store x v)
  cases replaces with
  | true =>
    refine .get_bind ?_
    cases hsplitting : e₁.guards.splitting with
    | true => exact hstore e₁
    | false =>
      refine Mimics.bracket (mimics_splitInto hr v w.parts.entries).attempt (unfailing_attempt _) rfl rfl
        (fun _ ↦ ?_) fun result e₂ _ ↦ (Matches.ofExcept result).bind fun _ e₃ _ ↦ hstore e₃
      rw [← hsplitting]
  | false =>
    refine .get_bind ((hstore e₁).bind fun _ e₂ _ ↦ ?_)
    refine Matches.bind (.forIn fun id _ _ e₃ ↦ ?_) fun _ _ _ ↦ .pure _
    exact (hr.recalculate e₃ id).bind fun _ _ _ ↦ .pure _

theorem mimics_updateConnected (hr : r.Shadows r') (x : VarId) :
    Mimics e (updateConnected r x) (updateConnected r' x) := by
  refine .variableAt_bind fun w _ ↦ .get_bind ?_
  refine Matches.bind (.forIn fun y _ _ e₁ ↦ .get_bind ?_) fun _ _ _ ↦ .pure _
  cases e₁.vars.contains y with
  | true =>
    refine .lift_bind (Step.reads_read y) fun v e₂ _ ↦ ?_
    exact (hr.suggest e₂ y v _ _).bind fun _ _ _ ↦ .pure _
  | false => exact .pure _

theorem mimics_putBack (hr : r.Shadows r') (x : VarId) (old : Value) :
    Mimics e (putBack r x old) (putBack r' x old) := by
  refine (hr.suggest e x old _ _).attempt.bind fun result e₁ _ ↦ ?_
  cases result with
  | ok _ => exact .pure _
  | error err => exact .get_bind (.of_steady (.lift (Step.operating_report _)))

/-- The variable counts as propagating while its value is handed on. -/
theorem mimics_spread (hr : r.Shadows r') (x : VarId) (v old : Value) (origin : Origin) :
    Mimics e (spread r x v old origin) (spread r' x v old origin) := by
  refine .get_bind ?_
  cases hstoring : e.guards.storing.contains x with
  | true => exact .pure _
  | false =>
    have hupdate : ∀ e₁, Mimics e₁ (do
        updateDownstream x v
        updateUnbound r x v
        updateConnected r x) (do
        updateDownstream x v
        updateUnbound r' x v
        updateConnected r' x) := fun e₁ ↦ by
      refine .steady_bind (operating_updateDownstream x v) fun _ e₂ _ ↦ ?_
      exact (mimics_updateUnbound hr x v).bind fun _ e₃ _ ↦ mimics_updateConnected hr x
    refine Mimics.bracket (hupdate _).attempt (unfailing_attempt _) rfl rfl (fun _ ↦ ?_) fun result e₂ _ ↦ ?_
    · dsimp only
      rw [List.erase_append_right _ (by simpa using hstoring), List.erase_cons_head, List.append_nil]
    · cases result with
      | ok _ => exact .pure _
      | error err =>
        by_cases horigin : origin = .source
        · simp only [horigin, if_true]
          exact (mimics_putBack hr x old).bind fun _ _ _ ↦ .fail _
        · simp only [horigin, if_false]
          exact .fail _

theorem mimics_propagate (hr : r.Shadows r') (x : VarId) (v old : Value) (origin : Origin)
    (force : Bool) :
    Mimics e (propagate r x v old origin force) (propagate r' x v old origin force) := by
  cases force with
  | true => exact mimics_spread hr x v old origin
  | false =>
    refine .steady_bind (reads_storedValue x) fun stored e₁ _ ↦ ?_
    cases v.near stored with
    | true => exact .pure _
    | false => exact mimics_spread hr x v old origin

/-! ### Switching on and rebuilding -/

theorem mimics_reconcile (hr : r.Shadows r') (compare : Bool) (xs : List VarId) :
    Mimics e (reconcile r compare xs) (reconcile r' compare xs) := by
  induction xs generalizing e with
  | nil => exact .pure _
  | cons x xs ih =>
    refine .get_bind ?_
    cases e.vars.get? x with
    | none => exact ih
    | some v =>
      refine .lift_bind (Step.reads_read x) fun new e₁ _ ↦ ?_
      dsimp only
      cases !compare && !v.shadow.near new with
      | true =>
        refine .steady_bind (operating_updateDownstream x new) fun _ e₂ _ ↦ ?_
        refine (mimics_propagate hr x new v.shadow .propagation false).bind fun _ e₃ _ ↦ ?_
        exact ih.bind fun _ _ _ ↦ .pure _
      | false => exact ih.bind fun _ _ _ ↦ .pure _

theorem mimics_enable (hr : r.Shadows r') (id : ConstraintId) (compare : Bool) :
    Mimics e (enable r id compare) (enable r' id compare) := by
  refine .constraintAt_bind fun c _ ↦ ?_
  cases c.enabled with
  | true => exact .pure _
  | false =>
    dsimp only
    cases c.primitives.isEmpty && !c.isTest with
    | true => exact .get_bind (.fail _)
    | false =>
      refine .lift_bind Step.ordinary_tick fun _ e₁ _ ↦ ?_
      refine .steady_bind (ordinary_activate id c).attempt fun result e₂ _ ↦ ?_
      cases result with
      | error err => exact .lift_bind (ordinary_deactivate id c) fun _ _ _ ↦ .fail _
      | ok _ =>
        refine .lift_bind Step.operating_elapsed fun elapsedMs e₃ _ ↦ ?_
        refine .lift_bind (Step.operating_reportSolve _ _ _) fun _ e₄ _ ↦ ?_
        refine .constraintAt_bind fun c₄ _ ↦ ?_
        refine (mimics_reconcile hr compare c₄.vars).bind fun changes e₅ _ ↦ ?_
        exact .of_steady (ordinary_changeConstraint fun _ h ↦ h)

theorem mimics_enableTransplanted (hr : r.Shadows r') (id : ConstraintId) (s : SolverId)
    (ps : List Primitive) :
    Mimics e (enableTransplanted r id s ps) (enableTransplanted r' id s ps) := by
  refine (mimics_enable hr id false).attempt.bind fun result e₁ _ ↦ ?_
  cases result with
  | ok _ => exact .pure _
  | error err =>
    refine .lift_bind (Step.ordinary_disable id) fun _ e₂ _ ↦ ?_
    exact .steady_bind ordinary_weaken fun _ e₃ _ ↦ mimics_enable hr id false

theorem mimics_recalculate (hr : r.Shadows r') (id : ConstraintId) :
    Mimics e (recalculate r id) (recalculate r' id) := by
  refine .constraintAt_bind fun c _ ↦ ?_
  cases c.enabled with
  | false => exact .pure _
  | true =>
    refine .steady_bind (ordinary_dismantle id c) fun _ e₁ _ ↦ ?_
    refine .steady_bind (ordinary_realize id) fun _ e₂ _ ↦ .constraintAt_bind fun c₂ _ ↦ ?_
    refine .steady_bind (ordinary_forsake _ _) fun _ e₃ _ ↦ ?_
    refine .steady_bind (operating_transplants _ _) fun ps e₄ _ ↦ ?_
    refine (mimics_enableTransplanted hr id c.solver ps).attempt.bind fun result e₅ _ ↦ ?_
    exact .steady_bind ordinary_withdraw fun _ _ _ ↦ .ofExcept _

/-! ### Selection -/

/-- The candidate is current while it is measured. -/
theorem mimics_measure (hr : r.Shadows r') (id : ConstraintId) (s : SolverId) :
    Mimics e (measure r id s) (measure r' id s) := by
  have htrial : ∀ e₁, Mimics e₁ (trial r id) (trial r' id) := by
    intro e₁
    refine (mimics_enable hr id true).attempt.bind fun result e₂ _ ↦ ?_
    exact .lift_bind (Step.ordinary_disable id) fun _ _ _ ↦ .pure _
  refine .get_bind (Mimics.bracket (g := fun g ↦ { g with current := e.guards.current }) (htrial _)
    (unfailing_trial id) rfl rfl (fun _ ↦ rfl) fun result e₂ _ ↦ .get_bind (.pure _))

theorem mimics_chooseConstraint (hr : r.Shadows r') (candidates : List ConstraintId)
    (keep : Option ConstraintId) (options : ConstraintOptions) :
    Mimics e (chooseConstraint r candidates keep options)
      (chooseConstraint r' candidates keep options) := by
  refine .steady_bind (.forIn fun id _ _ e₁ _ ↦ ?_) fun _ e₁ _ ↦ ?_
  · exact .lift_bind (Step.ordinary_disable id) fun _ _ _ _ ↦ .pure _
  refine Matches.bind (.forIn fun id _ acc e₂ ↦ .get_bind ?_) fun acc e₂ _ ↦ .get_bind ?_
  · dsimp only
    cases e₂.constraints.get? id with
    | none => exact .pure _
    | some c =>
      refine (mimics_measure hr id c.solver).bind fun result e₃ _ ↦ ?_
      cases result with
      | ok m => exact .pure _
      | error err =>
        dsimp only
        cases some id != keep with
        | true => exact .lift_bind (Step.ordinary_abandon id) fun _ _ _ ↦ .pure _
        | false => exact .pure _
  · dsimp only
    cases selectBest (options.metrics.getD e₂.config.optimizationPriority) acc.1 with
    | none => exact .pure _
    | some best =>
      refine .get_bind ?_
      cases e₂.constraints.get? best with
      | none => exact .pure _
      | some c => exact .lift_bind (Step.operating_report _) fun _ _ _ ↦ .pure _

theorem mimics_reevaluate (hr : r.Shadows r') (id : ConstraintId) :
    Mimics e (reevaluate r id) (reevaluate r' id) := by
  refine .constraintAt_bind fun c _ ↦ .get_bind ?_
  refine .lift_bind (Step.operating_report _) fun _ e₁ _ ↦ ?_
  refine .steady_bind (operating_filterCandidates _ _ _) fun solvers e₂ _ ↦ ?_
  dsimp only
  cases solvers.1.isEmpty with
  | true => exact .pure _
  | false =>
    refine .steady_bind (ordinary_buildCandidates _ _ _) fun built e₃ _ ↦ ?_
    cases built.1.isEmpty with
    | true => exact .pure _
    | false =>
      refine (mimics_chooseConstraint hr (built.1 ++ [id]) (some id) c.options).bind
        fun chosen e₄ _ ↦ ?_
      obtain ⟨winner, _⟩ := chosen
      refine .steady_bind
        (ordinary_abandonSome built.1 fun other ↦ other != id && some other != winner) fun _ e₅ _ ↦ ?_
      have henable : ∀ e₆, Mimics e₆ (if c.enabled = true then enable r id false else pure ())
          (if c.enabled = true then enable r' id false else pure ()) := by
        intro e₆
        cases c.enabled with
        | true => exact mimics_enable hr id false
        | false => exact .pure _
      cases winner with
      | none => exact henable e₅
      | some w =>
        dsimp only
        cases w != id with
        | true => exact .steady_bind (ordinary_transplantInto w id) fun _ e₆ _ ↦ henable e₆
        | false => exact henable e₅

theorem mimics_contest (hr : r.Shadows r') (options : ConstraintOptions)
    (candidates : List ConstraintId) :
    Mimics e (contest r options candidates) (contest r' options candidates) := by
  have habandon : ∀ (e₁ : Engine) (chosen : Option ConstraintId × List EngineError),
      Within Steady e₁ (do
        for other in candidates do
          if some other != chosen.1 then Step.abandon other
        return (chosen.1, chosen.2) : Call (Option ConstraintId × List EngineError)) :=
    fun e₁ chosen ↦ (ordinary_abandonSome candidates fun other ↦ some other != chosen.1).bind
      fun _ _ _ _ ↦ .pure _
  unfold contest
  dsimp only
  by_cases hseveral : 1 < candidates.length
  · rw [if_pos hseveral, if_pos hseveral]
    exact (mimics_chooseConstraint hr candidates none options).bind fun chosen e₁ _ ↦
      .of_steady (habandon e₁ chosen)
  · rw [if_neg hseveral, if_neg hseveral]
    exact .of_steady (habandon e (candidates.head?, []))

/-- The winner is marked while it is switched on. -/
theorem mimics_launch (hr : r.Shadows r') (options : ConstraintOptions) (id : ConstraintId) :
    Mimics e (launch r options id) (launch r' options id) := by
  unfold launch
  cases options.postpone with
  | true => exact .pure _
  | false =>
    unfold changeConstraint
    simp only [bind_assoc, Bool.false_eq_true, if_false]
    refine .constraintAt_bind fun c _ ↦ Mimics.between rfl (fun _ ↦ rfl) (fun hb ↦ ?_)
      (unfailing_attempt _) (fun _ h ↦ h.unmark) fun enabled e₁ _ ↦ ?_
    · exact (mimics_enable hr id false).attempt hb
    · cases enabled with
      | ok _ => exact .pure _
      | error err => exact .lift_bind (Step.ordinary_abandon id) fun _ _ _ ↦ .pure _

theorem resumes_deferFailures (options : ConstraintOptions) (errors : List EngineError) :
    Step.Within Resumes e (deferFailures options errors) :=
  ⟨⟨rfl, .same rfl rfl, fun _ h ↦ h⟩, fun _ ↦ rfl⟩

theorem mimics_maintain (hr : r.Shadows r') (predicate : Expr) (options : ConstraintOptions) :
    Mimics e (maintain r predicate options) (maintain r' predicate options) := by
  have hdefer : ∀ (e₁ : Engine) (errors : List EngineError), Within Resumes e₁ (do
      deferFailures options errors
      return none : Call (Option ConstraintId)) := fun e₁ errors ↦
    .lift_bind (resumes_deferFailures options errors) fun _ _ _ _ ↦ .pure _
  refine .get_bind (.steady_bind (operating_filterCandidates _ _ _) fun solvers e₁ _ ↦ ?_)
  refine .steady_bind (ordinary_buildCandidates _ _ _) fun built e₂ _ ↦ ?_
  refine (mimics_contest hr options built.1).bind fun chosen e₃ _ ↦ ?_
  obtain ⟨_ | id, unmeasured⟩ := chosen
  · exact .of_within (hdefer e₃ _)
  · refine (mimics_launch hr options id).bind fun enabled e₄ _ ↦ ?_
    cases enabled with
    | ok _ => exact .pure _
    | error err => exact .of_within (hdefer e₄ _)

/-! ### Hooks -/

/-- A hook is not a handler. -/
theorem matches_runHook (hr : r.Shadows r') (h : PendingHook) :
    Matches Receptive Lowers e (runHook r h) (runHook r' h) := by
  refine .steady_bind (reads_readField _ _).attempt fun result e₁ _ ↦ ?_
  cases result with
  | error err => exact .of_steady (.lift (Step.operating_report _))
  | ok v =>
    intro he₁
    let e₂ := { e₁ with journal := e₁.journal.push (.hook h.receiver h.field v) }
    have hb₂ : Busy e₂ := he₁.busy
    have hrecorded : Lowers e₁ e₂ := ⟨rfl, .idle he₁.pending he₁.pending, fun _ h ↦ h⟩
    have hact := hr.act e₂ h.hook (fun ⟨tag, errors, hback⟩ ↦ ?_) hb₂.orderly he₁.pending
    · exact .known_bind (lift_run _ _) (hact.mono fun _ h ↦ trans_of Lowers hrecorded h.toLowers)
    · cases Array.back?_push.symm.trans hback

/-- **Running hooks.** They are taken first, so that none is collected while they run. -/
theorem coincide_runHooks (hr : r.Shadows r') (hb : Busy e) (hrunning : e.guards.runningHooks = false) :
    Coincide (Resumes { e with pendingHooks := none }) e (runHooks r) (runHooks r') := by
  let hooks := PendingHook.distinct (e.pendingHooks.getD [])
  let e₁ : Engine := { e with pendingHooks := none, guards := { e.guards with runningHooks := true } }
  have hrun : Coincide (Lowers e₁) e₁ (hooks.forM (runHook r)) (hooks.forM (runHook r')) :=
    Matches.forM (fun h _ e₂ ↦ matches_runHook hr h) (Receptive.mk hb rfl)
  refine .get_bind (.modify_bind (.known_bind (lift_run _ _) (hrun.unfailing_bind
    (.forM fun h _ ↦ unfailing_runHook hr.unfailing h) fun _ e₂ _ h₂ ↦ ⟨rfl, fun _ ↦ ?_⟩)))
  refine Lowers.resumes (h₂.lower (e := { e with pendingHooks := none })
    (f := fun g ↦ { g with runningHooks := true }) (g := fun g ↦ { g with runningHooks := false })
    fun _ ↦ ?_) hrunning
  rw [← hrunning]

theorem mimics_countWrite (hr : r.Shadows r') (id : ConstraintId) :
    Mimics e (countWrite r id) (countWrite r' id) := by
  refine .steady_bind (ordinary_changeConstraint ?_) fun _ e₁ _ ↦ .constraintAt_bind fun c _ ↦ ?_
  · exact fun _ h ↦ h
  · by_cases hover : c.interval ≤ c.counter
    · rw [if_pos hover, if_pos hover]
      refine (mimics_reevaluate hr id).bind fun _ e₂ _ ↦ .of_steady (.lift ?_)
      exact Step.ordinary_modifyConstraint fun _ h ↦ h
    · rw [if_neg hover, if_neg hover]
      exact .pure _

theorem resumes_collectHook (x : VarId) : Within Resumes e (collectHook x) := by
  refine .lift_bind ((Reads.defining x).mono fun _ ↦ Steady.resumes) fun d e₁ _ _ ↦ ?_
  split
  · refine .get_bind ?_
    split
    · refine fun _ ↦ ⟨⟨rfl, ⟨fun hnone ↦ ?_, fun hsome ↦ ⟨?_, rfl⟩⟩, fun _ h ↦ h⟩, fun _ ↦ rfl⟩
      · show e₁.pendingHooks.map _ = none
        rw [hnone, Option.map_none]
      · show (e₁.pendingHooks.map _).isSome
        rwa [Option.isSome_map]
    · exact .pure _
    · exact .tooDeep
  · exact .pure _

theorem mimics_followUp (hr : r.Shadows r') (x : VarId) (v old : Value) (origin : Origin)
    (force : Bool) (initiating : Option ConstraintId) :
    Mimics e (followUp r x v old origin force false initiating)
      (followUp r' x v old origin force false initiating) := by
  have hrest : ∀ e₁, Mimics e₁ (do
      propagate r x v old origin force
      collectHook x
      if false = true then runHooks r) (do
      propagate r' x v old origin force
      collectHook x
      if false = true then runHooks r') := fun e₁ ↦
    (mimics_propagate hr x v old origin force).bind fun _ e₂ _ ↦
      .bind (.of_within (resumes_collectHook x)) fun _ e₃ _ ↦ .pure _
  cases initiating with
  | none => exact hrest e
  | some id => exact (mimics_countWrite hr id).bind fun _ e₁ _ ↦ hrest e₁

end Call

/-! ### Writing -/

namespace Step

/-- A write marks the constraint that defines its variable, unless it is marked. -/
def mark (x : VarId) : Step (Option ConstraintId) := do initiate (← defining x)

end Step

namespace Engine

/-- What was raised is lowered, except for the mark of a constraint. -/
structure ResumesBut (mark : Option ConstraintId) (e e' : Engine) : Prop where
  guards : e'.guards = { e.guards with generation := e'.guards.generation }
  pending : Collects e e'
  marked : ∀ id, e'.Marked id → e.Marked id ∨ mark = some id

variable {mark : Option ConstraintId} {e'' : Engine}

theorem Resumes.but (h : Resumes e e') : ResumesBut mark e e' :=
  ⟨h.guards, h.pending, fun id hid ↦ .inl (h.marked id hid)⟩

theorem ResumesBut.after (h : Resumes e e') (h' : ResumesBut mark e' e'') :
    ResumesBut mark e e'' := by
  refine ⟨?_, trans_of Collects h.pending h'.pending, fun id hid ↦
    (h'.marked id hid).imp_left (h.marked id)⟩
  rw [h'.guards, h.guards]

theorem ResumesBut.before (h : ResumesBut mark e e') (h' : Resumes e' e'') :
    ResumesBut mark e e'' := by
  refine ⟨?_, trans_of Collects h.pending h'.pending, fun id hid ↦ h.marked id (h'.marked id hid)⟩
  rw [h'.guards, h.guards]

end Engine

namespace Step

theorem resumesBut_initiate (d : Option Defining) (e : Engine) :
    ResumesBut (initiate d e).1 e (initiate d e).2 := by
  have hsame : ResumesBut none e e := Resumes.but (refl_of Resumes e)
  unfold initiate
  cases d.bind Defining.constraint with
  | none => exact hsame
  | some id =>
    dsimp only
    rw [get_run]
    cases e.constraints.get? id with
    | none => exact hsame
    | some c =>
      dsimp only
      cases c.initiating with
      | true => exact hsame
      | false =>
        refine ⟨rfl, .same rfl rfl, fun id' hid' ↦ (marked_of_mark hid').imp_right fun heq ↦ ?_⟩
        exact congrArg some heq.symm

theorem resumesBut_mark (x : VarId) (e : Engine) : ResumesBut (mark x e).1 e (mark x e).2 :=
  .after (Steady.resumes (Reads.defining x)) (resumesBut_initiate _ _)

end Step

namespace Call

variable {w : Written} {v old : Value} {origin : Origin} {force outermost : Bool}

/-- The constraint that a write marked. -/
theorem initiating_of_absorb (hrun : absorb r x v old origin force outermost e = (.ok w, e')) :
    w.initiating = (Step.mark x e).1 := by
  have hfollow : ∀ {initiating : Option ConstraintId} {bumped : Bumped} {e₁ : Engine}, (do
      let result ← attempt (followUp r x v old origin force outermost initiating)
      return (⟨initiating, bumped, result⟩ : Written) : Call Written) e₁ = (.ok w, e') →
        w.initiating = initiating := by
    intro initiating bumped e₁ hrun
    obtain ⟨result, e₂, -, hlast⟩ := of_bind_ok hrun
    cases hlast
    rfl
  obtain ⟨d, e₁, hd, hrun⟩ := of_bind_ok hrun
  obtain ⟨initiating, e₂, hinitiating, hrun⟩ := of_bind_ok hrun
  have hmark : (Step.mark x e).1 = initiating := by
    rw [lift_run] at hd hinitiating
    cases hd
    cases hinitiating
    rfl
  rw [hmark]
  cases d with
  | none => exact hfollow hrun
  | some d =>
    obtain ⟨⟨bumped, result⟩, e₃, -, hrun⟩ := of_bind_ok hrun
    cases result with
    | error err =>
      cases hrun
      rfl
    | ok _ => exact hfollow hrun

/-- The outermost write runs the hooks last. -/
theorem followUp_outermost (r : Reentry) (x : VarId) (v old : Value) (origin : Origin) (force : Bool)
    (initiating : Option ConstraintId) : followUp r x v old origin force true initiating = (do
      followUp r x v old origin force false initiating
      runHooks r) := by
  cases initiating <;> simp [followUp]

/-- **The outermost write** is a write within a write, and then its hooks, if the write was adopted. -/
theorem absorb_outermost (r : Reentry) (x : VarId) (v old : Value) (origin : Origin) (force : Bool) :
    absorb r x v old origin force true = (do
      let w ← absorb r x v old origin force false
      match w.result with
      | .error _ => return w
      | .ok () => return { w with result := ← attempt (runHooks r) }) := by
  have hrest : ∀ (initiating : Option ConstraintId) (bumped : Bumped), (do
      let result ← attempt (followUp r x v old origin force true initiating)
      return (⟨initiating, bumped, result⟩ : Written)) = (do
      let w ← (do
        let result ← attempt (followUp r x v old origin force false initiating)
        return (⟨initiating, bumped, result⟩ : Written))
      match w.result with
      | .error _ => return w
      | .ok () => return { w with result := ← attempt (runHooks r) }) := by
    intro initiating bumped
    rw [followUp_outermost, attempt_bind]
    simp only [bind_assoc]
    congr 1
    funext result
    cases result <;> simp
  simp only [absorb, bind_assoc]
  congr 1
  funext d
  congr 1
  funext initiating
  cases d with
  | none => simpa using hrest initiating none
  | some d =>
    simp only [bind_assoc]
    congr 1
    funext primary
    obtain ⟨bumped, _ | _⟩ := primary
    · simp
    · simpa using hrest initiating bumped

/-- What is marked by a write stays marked while it is absorbed. -/
theorem coincide_absorb (hr : r.Shadows r') (hb : Busy e) :
    Coincide (Resumes (Step.mark x e).2) e (absorb r x v old origin force false)
      (absorb r' x v old origin force false) := by
  have hmark : ResumesBut _ e (Step.initiate (Step.defining x e).1 (Step.defining x e).2).2 :=
    Step.resumesBut_mark x e
  show Coincide (Resumes (Step.initiate (Step.defining x e).1 (Step.defining x e).2).2) e _ _
  refine .known_bind (lift_run _ _) (.known_bind (lift_run _ _) ?_)
  generalize Step.initiate (Step.defining x e).1 (Step.defining x e).2 = marked at hmark ⊢
  obtain ⟨initiating, e₀⟩ := marked
  have hb₀ : Busy e₀ := by rwa [Busy, hmark.guards]
  have hfollow : ∀ (bumped : Bumped) (e₁ : Engine), Resumes e₀ e₁ → Mimics e₁ (do
      let result ← attempt (followUp r x v old origin force false initiating)
      return (⟨initiating, bumped, result⟩ : Written)) (do
      let result ← attempt (followUp r' x v old origin force false initiating)
      return (⟨initiating, bumped, result⟩ : Written)) := fun bumped e₁ _ ↦
    (mimics_followUp hr x v old origin force _).attempt.bind fun _ _ _ ↦ .pure _
  cases (Step.defining x e).1 with
  | none => exact hfollow none e₀ (refl_of Resumes e₀) hb₀
  | some d =>
    refine Matches.steady_bind (ordinary_suggestPrimary x v origin d) (fun primary e₁ h₁ ↦ ?_) hb₀
    obtain ⟨bumped, _ | _⟩ := primary
    · exact .pure _
    · exact hfollow bumped e₁ h₁.resumes

/-- The same of the outermost write, wherever hooks are collected. -/
theorem coincide_absorb_outermost (hr : r.Shadows r') (hb : Busy e)
    (hrunning : e.guards.runningHooks = false) :
    Coincide (fun e' ↦ Resumes { (Step.mark x e).2 with pendingHooks := none }
        { e' with pendingHooks := none }) e
      (absorb r x v old origin force true) (absorb r' x v old origin force true) := by
  rw [absorb_outermost, absorb_outermost]
  refine (coincide_absorb hr hb).unfailing_bind (unfailing_absorb _ _ _ _ _ _) fun w e₁ _ h₁ ↦ ?_
  cases w.result with
  | error err => exact ⟨rfl, fun _ ↦ h₁.silence⟩
  | ok _ =>
    have hguards := (Step.resumesBut_mark x e).before h₁ |>.guards
    have hb₁ : Busy e₁ := by rwa [Busy, hguards]
    have hrunning₁ : e₁.guards.runningHooks = false := by rwa [hguards]
    refine (coincide_runHooks hr hb₁ hrunning₁).attempt.unfailing_bind (unfailing_attempt _)
      fun result e₂ _ h₂ ↦ ⟨rfl, fun _ ↦ ?_⟩
    exact trans_of Resumes h₁.silence h₂.silence

theorem resumes_conclude (x : VarId) (v old : Value) (result : Except EngineError Unit) :
    Within Resumes e (conclude x v old result) := by
  have hhandOver : ∀ (e₁ : Engine) (err : EngineError), Within Resumes e₁ (handOver x err) := by
    intro e₁ err
    refine .get_bind ?_
    dsimp only
    split
    · exact fun _ ↦ ⟨⟨rfl, .same rfl rfl, fun _ h ↦ h⟩, fun _ ↦ rfl⟩
    · exact .fail _
  cases result with
  | ok _ => exact .pure _
  | error err =>
    refine .lift_bind ((Step.reads_read x).mono fun _ ↦ Steady.resumes) fun now e₁ _ _ ↦ ?_
    split
    · exact (hhandOver e₁ err).bind fun _ _ _ _ ↦ .pure _
    · exact .get_bind (.fail _)

/-- A write takes back its mark. -/
theorem lowers_takeBack {e₀ : Engine} (h : ResumesBut w.initiating e₀ e) :
    Lowers e₀ (w.takeBack e).2 := by
  obtain ⟨initiating, bumped, result⟩ := w
  have hmark : ∀ e₁, ResumesBut initiating e₀ e₁ →
      Lowers e₀ (Written.takeBack ⟨initiating, none, result⟩ e₁).2 := by
    intro e₁ h₁
    cases initiating with
    | none =>
      refine ⟨h₁.guards, ⟨h₁.pending.none, h₁.pending.some⟩, fun id hid ↦ ?_⟩
      exact (h₁.marked id hid).resolve_right nofun
    | some id =>
      refine ⟨h₁.guards, ⟨h₁.pending.none, h₁.pending.some⟩, fun id' hid' ↦ ?_⟩
      obtain ⟨hmarked, hne⟩ := marked_of_unmark hid'
      exact (h₁.marked id' hmarked).resolve_right fun heq ↦ hne (Option.some_inj.1 heq).symm
  cases bumped with
  | none => exact hmark e h
  | some b => exact hmark _ (h.before (Steady.resumes (Step.ordinary_unbump b.1 b.2)))

/-- **Writing.** The mark is taken back, and hooks are collected afterwards only if they were
before. -/
theorem mimics_suggest (hr : r.Shadows r') (x : VarId) (v : Value) (origin : Origin)
    (force : Bool) : Mimics e (suggest r x v origin force) (suggest r' x v origin force) := by
  refine .get_bind ?_
  cases hrunning : e.guards.runningHooks with
  | true => exact .pure _
  | false =>
    refine .steady_bind (reads_storedValue x) fun old e₁ h₁ ↦ ?_
    have hrunning₁ : e₁.guards.runningHooks = false := by rwa [h₁.guards]
    dsimp only
    cases !force && v.near old with
    | true => exact .pure _
    | false =>
      refine .get_bind ?_
      have hend : ∀ (w : Written) (e₂ : Engine), ResumesBut w.initiating e₁ e₂ →
          Coincide (Resumes e₁) e₂ (do
            w.takeBack
            conclude x v old w.result) (do
            w.takeBack
            conclude x v old w.result) := fun w e₂ h₂ ↦ ⟨rfl, by
        have hconclude := resumes_conclude (e := (w.takeBack e₂).2) x v old w.result
        have htaken := (lowers_takeBack h₂).resumes hrunning₁
        exact fun hne ↦ trans_of Resumes htaken (hconclude hne)⟩
      cases hcollecting : e₁.pendingHooks.isNone with
      | false =>
        intro hb
        refine (coincide_absorb hr hb).unfailing_bind (unfailing_absorb _ _ _ _ _ _)
          fun w e₂ hrun h₂ ↦ hend w e₂ ?_
        rw [initiating_of_absorb hrun]
        exact (Step.resumesBut_mark x e₁).before h₂
      | true =>
        intro hb
        let e₀ := { e₁ with pendingHooks := some [] }
        have hb₀ : Busy e₀ := hb
        refine .modify_bind ((coincide_absorb_outermost hr hb₀ hrunning₁).unfailing_bind
          (unfailing_absorb _ _ _ _ _ _) fun w e₂ hrun h₂ ↦ ?_)
        have hmark := Step.resumesBut_mark x e₀
        have hlast : ResumesBut w.initiating e₁ { e₂ with pendingHooks := none } := by
          rw [initiating_of_absorb hrun]
          refine ⟨?_, .idle (Option.isNone_iff_eq_none.1 hcollecting) rfl, fun id hid ↦
            hmark.marked id (h₂.marked id hid)⟩
          exact h₂.guards.trans (by rw [hmark.guards])
        exact .modify_bind (hend w _ hlast)

end Call

end LiveConstraints

import LiveConstraints.Proofs.Incidence.Answering
import LiveConstraints.Proofs.Quiescence.Lowering
/-!
# Between requests the engine is quiescent

Whatever requests are made of an engine, whatever its solvers answer, and whatever its hooks and
handlers do, once a request was answered nothing is left of it: no guard is raised, nothing is
deferred, no hook is collected and no constraint is marked (`Engine.Quiescent`). Handlers start only
when the work of the outermost call is done, so that none starts in the middle of a write
(`Engine.Driven.quiescent`).
-/

namespace LiveConstraints

open Engine

variable {α : Type} {e e' : Engine} {r r' : Reentry} {config : Setup} {request : Request}
  {program : Program}

namespace Engine

/-- The deferred work was taken up, unless a call is in progress or it is being taken up already. -/
structure Clears (e e' : Engine) : Prop extends Resumes e e' where
  deferred : e.guards.nesting = 0 → e.guards.draining = false → e'.deferred = []

theorem Clears.after {e₁ : Engine} (h : Resumes e e₁) (h' : Clears e₁ e') : Clears e e' := by
  refine ⟨trans_of Resumes h h'.toResumes, fun hnesting hdraining ↦ h'.deferred ?_ ?_⟩
  · rw [h.guards, hnesting]
  · rw [h.guards, hdraining]

theorem Clears.concludes (h : Clears e e') : Concludes e e' :=
  ⟨h.toResumes, fun hnesting hdraining _ ↦ h.deferred hnesting hdraining⟩

end Engine

namespace Call

/-! ### Deferred work -/

/-- A handler starts at an idle engine. -/
theorem coincide_handle (hr : r.Shadows r') (hi : e.Idle) (handler : ErrorHandler)
    (errors : List EngineError) :
    Coincide (Resumes e) e (handle r handler errors) (handle r' handler errors) := by
  have hrecorded : Resumes e
      { e with journal := e.journal.push (.handler handler.tag errors) } :=
    Lowers.resumes ⟨rfl, .idle hi.pending hi.pending, fun _ h ↦ h⟩ hi.runningHooks
  have hi₁ := hi.lowers hrecorded.toLowers
  have hact := hr.act _ handler.actions (fun _ ↦ hi₁) (fun _ ↦ hi₁) hi₁.pending
  exact .known_bind (lift_run _ _) (hact.mono fun _ ↦ trans_of Resumes hrecorded)

/-- **Draining** an idle engine. When it returns, nothing is deferred. -/
theorem coincide_drain (hr : r.Shadows r') (hi : e.Idle) (n : Nat) (failures : List EngineError) :
    Coincide (fun e' ↦ Resumes e e' ∧ e'.deferred = []) e (drain r n failures)
      (drain r' n failures) := by
  induction n generalizing e failures with
  | zero =>
    refine ⟨rfl, .get_bind ?_⟩
    split
    · next hempty => exact fun _ ↦ ⟨refl_of Resumes e, List.isEmpty_iff.1 hempty⟩
    · exact .tooDeep
  | succ n ih =>
    have htake := takeDeferred_eq e
    cases hdeferred : e.deferred with
    | nil =>
      rw [hdeferred] at htake
      exact .known_bind htake ⟨rfl, fun _ ↦ ⟨refl_of Resumes e, hdeferred⟩⟩
    | cons work rest =>
      rw [hdeferred] at htake
      have h₁ : Resumes e { e with deferred := rest } :=
        ⟨⟨rfl, .same rfl rfl, fun _ h ↦ h⟩, fun _ ↦ rfl⟩
      have hi₁ := hi.lowers h₁.toLowers
      refine .known_bind htake ?_
      match work with
      | .rethrow err => exact (ih hi₁ _).mono fun _ ↦ And.imp_left (trans_of Resumes h₁)
      | .handle handler errors =>
        refine (coincide_handle hr hi₁ handler errors).unfailing_bind
          (unfailing_handle hr.unfailing handler errors) fun _ e₂ _ h₂ ↦ ?_
        exact (ih (hi₁.lowers h₂.toLowers) _).mono fun _ ↦
          And.imp_left (trans_of Resumes (trans_of Resumes h₁ h₂))

/-- **Settling** an orderly engine: unless a call is in progress, the engine is idle. -/
theorem coincide_settle (hr : r.Shadows r') (ho : e.Orderly) :
    Coincide (Clears e) e (settle r) (settle r') := by
  refine .get_bind ?_
  dsimp only
  cases hbusy : decide (0 < e.guards.nesting) || e.guards.draining with
  | true =>
    refine ⟨rfl, fun _ ↦ ⟨refl_of Resumes e, fun hnesting hdraining ↦ ?_⟩⟩
    simp [hnesting, hdraining] at hbusy
  | false =>
    obtain ⟨hnesting, hdraining⟩ : ¬ 0 < e.guards.nesting ∧ e.guards.draining = false := by
      simpa using hbusy
    have hi := ho (by omega)
    have hi₁ : Idle { e with guards := { e.guards with draining := true } } :=
      ⟨by rw [hi.guards], hi.pending, hi.marked⟩
    rw [hr.patience]
    refine .known_bind (lift_run _ _) ((coincide_drain hr hi₁ r'.patience []).unfailing_bind
      (unfailing_drain hr.unfailing _ _) fun failures e₁ _ h₁ ↦ .known_bind (lift_run _ _) ?_)
    obtain ⟨h₁, hdeferred⟩ := h₁
    have h : Clears e { e₁ with guards := { e₁.guards with draining := false } } := by
      refine ⟨?_, fun _ _ ↦ hdeferred⟩
      refine h₁.lower (f := fun g ↦ { g with draining := true })
        (g := fun g ↦ { g with draining := false }) rfl fun _ ↦ ?_
      rw [← hdraining]
    cases EngineError.merge? failures with
    | some err => exact ⟨rfl, fun _ ↦ h⟩
    | none => exact ⟨rfl, fun _ ↦ h⟩

/-- **A call of its own.** -/
theorem heeds_topLevel (hr : r.Shadows r') {call call' : Call α}
    (hcall : ∀ e, Mimics e call call') : Heeds e (topLevel r call) (topLevel r' call') := by
  intro ho
  have hb : Busy { e with guards := { e.guards with nesting := e.guards.nesting + 1 } } :=
    Nat.succ_pos _
  refine .known_bind (lift_run _ _) (((hcall _).attempt hb).unfailing_bind (unfailing_attempt _)
    fun result e₁ _ h₁ ↦ .known_bind (lift_run _ _) ?_)
  have h : Resumes e { e₁ with guards := { e₁.guards with nesting := e₁.guards.nesting - 1 } } :=
    h₁.lower (f := fun g ↦ { g with nesting := g.nesting + 1 })
      (g := fun g ↦ { g with nesting := g.nesting - 1 }) rfl fun _ ↦ rfl
  refine (coincide_settle hr (ho.lowers h.toLowers)).attempt.unfailing_bind (unfailing_attempt _)
    fun settled e₂ _ h₂ ↦ ?_
  -- the outcome does not change the engine
  have hconcludes := (Clears.after h h₂).concludes
  cases result with
  | error err => exact ⟨rfl, fun _ ↦ hconcludes⟩
  | ok a => cases settled <;> exact ⟨rfl, fun _ ↦ hconcludes⟩

/-! ### Requests -/

theorem heeds_writeField (hr : r.Shadows r') (obj : ObjectId) (field : String) (v : Value) :
    Heeds e (writeField r obj field v) (writeField r' obj field v) := by
  refine .steady_bind (ordinary_slotOrCreate obj field) fun slot e₁ _ ↦ ?_
  cases slot with
  | plain _ => exact .steady_bind (ordinary_setSlot _ _ _) fun _ _ _ ↦ .pure _
  | intercepted x => exact heeds_topLevel hr fun e₂ ↦ mimics_suggest hr x v .source false

theorem mimics_applyBatch (hr : r.Shadows r') (session : EditSession) (values : List Value) :
    Mimics e (applyBatch r session values) (applyBatch r' session values) := by
  refine .steady_bind (operating_resolveAll session values) fun _ e₁ _ ↦ ?_
  refine Matches.bind (.forIn fun field _ _ e₂ ↦ ?_) fun _ _ _ ↦ .pure _
  refine .lift_bind (Step.reads_read field.1) fun v e₃ _ ↦ ?_
  exact (hr.suggest e₃ field.1 v .propagation false).bind fun _ _ _ ↦ .pure _

theorem heeds_updateEdit (hr : r.Shadows r') (session : EditSession) (values : List Value) :
    Heeds e (updateEdit r session values) (updateEdit r' session values) := by
  unfold updateEdit
  by_cases hsize : values.length ≠ session.size
  · rw [if_pos hsize, if_pos hsize]
    exact .fail_bind
  · rw [if_neg hsize, if_neg hsize]
    exact heeds_topLevel hr fun _ ↦ mimics_applyBatch hr session values

theorem heeds_always (hr : r.Shadows r') (predicate : Expr) (options : ConstraintOptions) :
    Heeds e (always r predicate options) (always r' predicate options) :=
  heeds_topLevel hr fun _ ↦ mimics_maintain hr predicate options

theorem heeds_once (hr : r.Shadows r') (predicate : Expr) (options : ConstraintOptions) :
    Heeds e (once r predicate options) (once r' predicate options) := by
  refine (heeds_always hr predicate options).bind fun id e₁ _ ↦ ?_
  cases id with
  | none => exact .pure _
  | some id => exact .lift_bind (Step.ordinary_disable id) fun _ _ _ ↦ .pure _

theorem heeds_stay (hr : r.Shadows r') (predicate : Expr) (options : ConstraintOptions) :
    Heeds e (stay r predicate options) (stay r' predicate options) := by
  refine heeds_topLevel hr fun e₁ ↦ .get_bind ?_
  cases e₁.stayingSolver? options with
  | none => exact .fail _
  | some s =>
    refine .steady_bind (ordinary_build predicate s options .stay) fun id e₂ _ ↦ ?_
    refine .constraintAt_bind fun c _ ↦ .steady_bind (.forM fun x _ e₃ _ ↦ ?_) fun _ _ _ ↦ .pure _
    exact operating_attachStay s c.priority x

theorem heeds_switchOn (hr : r.Shadows r') (id : ConstraintId) :
    Heeds e (switchOn r id) (switchOn r' id) := heeds_topLevel hr fun _ ↦ mimics_enable hr id false

theorem heeds_setPriority (hr : r.Shadows r') (id : ConstraintId) (priority : Priority) :
    Heeds e (setPriority r id priority) (setPriority r' id priority) := by
  refine .constraintAt_bind fun c _ ↦ ?_
  have hchange : ∀ e₁, Within Steady e₁ (changeConstraint id fun c => { c with priority }) :=
    fun _ ↦ ordinary_changeConstraint fun _ h ↦ h
  cases c.enabled with
  | false => exact .steady_bind (hchange e) fun _ _ _ ↦ .pure _
  | true =>
    refine .lift_bind (Step.ordinary_disable id) fun _ e₁ _ ↦ ?_
    exact .steady_bind (hchange e₁) fun _ e₂ _ ↦ heeds_switchOn hr id

theorem heeds_reselect (hr : r.Shadows r') (id : ConstraintId) :
    Heeds e (reselect r id) (reselect r' id) := heeds_topLevel hr fun _ ↦ mimics_reevaluate hr id

/-! ### Answering -/

/-- A request that leads to nothing but an answer. -/
theorem Heeds.answered {m m' : Call α} {f : α → Answer} (h : Heeds e m m') :
    Heeds e (m >>= fun a ↦ pure (f a)) (m' >>= fun a ↦ pure (f a)) := h.bind fun _ _ _ ↦ .pure _

/-- **Answering.** A request is answered the same, and leaves nothing behind. -/
theorem heeds_perform (hr : r.Shadows r') (request : Request) :
    Heeds e (perform r request) (perform r' request) := by
  have hsteady : ∀ {β : Type} {m : Call β} {f : β → Answer}, Within Steady e m →
      Heeds e (m >>= fun a ↦ pure (f a)) (m >>= fun a ↦ pure (f a)) :=
    fun h ↦ .steady_bind h fun _ _ _ ↦ .pure _
  have haside : ∀ {g : Engine → Engine} {a : Answer}, Steady e (g e) →
      Heeds e (do modify g; return a) (do modify g; return a) :=
    fun h ↦ .steady_bind (fun _ ↦ h) fun _ _ _ ↦ .pure _
  cases request with
  | createObject fields => exact hsteady (ordinary_createObject fields)
  | read obj field => exact hsteady (reads_readField obj field)
  | write obj field v => exact (heeds_writeField hr obj field v).answered
  | fieldNames obj => exact hsteady (within_fieldNames obj)
  | isConstrained obj field => exact .get_bind (.pure _)
  | always predicate options => exact (heeds_always hr predicate options).answered
  | once predicate options => exact (heeds_once hr predicate options).answered
  | stay predicate options => exact (heeds_stay hr predicate options).answered
  | enable id => exact (heeds_switchOn hr id).answered
  | disable id => exact hsteady (.lift (Step.ordinary_disable id))
  | setPriority id priority => exact (heeds_setPriority hr id priority).answered
  | setInterval id interval => exact hsteady (ordinary_changeConstraint fun _ h ↦ h)
  | reevaluate id => exact (heeds_reselect hr id).answered
  | listConstraints => exact .get_bind (.pure _)
  | describe id => exact .constraintAt_bind fun _ _ ↦ .pure _
  | unconstrain obj field => exact hsteady (ordinary_unconstrain obj field)
  | unconstrainAll obj => exact hsteady (ordinary_unconstrainAll obj)
  | setReadonly obj field on => exact hsteady (steady_setReadonly obj field on)
  | defining obj field => exact hsteady (reads_definingOf obj field)
  | onWrite obj field actions => exact hsteady (ordinary_onWrite obj field actions)
  | openEdit obj fields => exact hsteady (operating_openEdit obj fields)
  | updateEdit session values =>
    refine .get_bind ?_
    cases e.session? session with
    | none => exact .pure _
    | some s => exact (heeds_updateEdit hr s values).answered
  | finishEdit session =>
    refine .get_bind (.get_bind ?_)
    cases e.session? session with
    | none => exact .pure _
    | some s =>
      refine .steady_bind (fun _ ↦ steady_aside rfl rfl rfl rfl rfl) fun _ e₁ _ ↦ ?_
      exact .of_steady ((operating_finishEdit s).bind fun _ _ _ _ ↦ .pure _)
  | addSolver solver registerOnly =>
    refine .get_bind ?_
    cases registerOnly <;> exact haside (steady_aside rfl rfl rfl rfl rfl)
  | setDefaultSolvers solvers => exact haside (steady_aside rfl rfl rfl rfl rfl)
  | setDefaultSolver solver => exact haside (steady_aside rfl rfl rfl rfl rfl)
  | setWeight s weight => exact hsteady (ordinary_setWeight s weight)
  | solverByName name => exact .get_bind (.pure _)
  | stats s => exact .of_steady (.solverAt_bind fun _ _ ↦ .pure _)
  | capabilities s => exact .of_steady (.solverAt_bind fun _ _ ↦ .pure _)
  | inspect predicate context => exact hsteady (reads_inspect context predicate)
  | dump => exact hsteady (.lift Call.reads_dump)

/-- A request that is recorded starts nothing. -/
theorem resumes_made {outcome : Except EngineError Answer} (hpending : e.pendingHooks = none) :
    Resumes e { e with journal := e.journal.push (.made request outcome) } := by
  refine ⟨⟨rfl, .idle hpending hpending, fun _ h ↦ h⟩, fun _ ↦ ?_⟩
  rw [started_push]
  exact List.append_nil _

/-- **Reacting.** The requests of a reaction are made one after another, each of them recorded. -/
theorem heeds_follow (hr : r.Shadows r') (reaction : Reaction) (hpending : e.pendingHooks = none) :
    Heeds e (follow r reaction) (follow r' reaction) := by
  induction reaction generalizing e with
  | done => exact .pure _
  | ask request next ih =>
    refine (heeds_perform hr request).attempt.bind fun outcome e₁ h₁ ↦ ?_
    have hpending₁ := h₁.pending.none hpending
    have hrecord : Within Concludes e₁ (liftM (Step.record (.made request outcome))) :=
      .lift ⟨resumes_made hpending₁, fun _ _ h ↦ h⟩
    refine .within_bind hrecord fun _ e₂ h₂ ↦ .get_bind ?_
    exact ih outcome e₂ (h₂.pending.none hpending₁)

end Call

/-- The ways back stay within any relation that lasts, whatever hooks and handlers do. -/
theorem Reentry.lasts_reacting {R : Engine → Engine → Prop} [Lasting R] (program : Program) (n : Nat) :
    (reacting program n).Lasts R := by
  induction n with
  | zero => exact lasts_exhausted
  | succ n ih =>
    exact {
      suggest := fun x v origin force ↦ Call.lasts_suggest ih x v origin force
      recalculate := fun id ↦ Call.stays_recalculate (Call.lasts_stays ih) Reentrant.reroute
      act := fun {e} requests ↦ Call.stays_follow (fun hrun ↦ trans_of R
        ((Call.lasts_perform ih _).attempt.of_ok hrun) (Lasting.aside _ _ _ rfl)) (program requests e)
      unfailing := fun requests e ↦ Call.unfailing_follow _ (program requests e) e }

namespace Engine

/-- If a handler starts, the engine is idle. -/
def HandlerIdle (e : Engine) : Prop := e.AtHandler → e.Idle

end Engine

/-- The watched ways back do the same as those that are not. -/
theorem Reentry.shadows_watched (other : List Request → Call Unit) (program : Program) (n : Nat) :
    (watched HandlerIdle other program n).Shadows (reacting program n) := by
  induction n with
  | zero =>
    exact {
      patience := rfl
      suggest := fun _ _ _ _ _ ↦ .tooDeep
      recalculate := fun _ _ ↦ .tooDeep
      act := fun _ _ _ _ _ ↦ ⟨rfl, .tooDeep⟩
      unfailing := fun _ ↦ .tooDeep }
  | succ n ih =>
    rw [watched, reacting]
    refine {
      patience := rfl
      suggest := fun _ x v origin force ↦ Call.mimics_suggest ih x v origin force
      recalculate := fun _ id ↦ Call.mimics_recalculate ih id
      act := fun e requests hstart ho hpending ↦ ?_
      unfailing := fun requests e err ↦ Call.unfailing_follow _ (program requests e) e err }
    obtain ⟨hsame, hwithin⟩ := Call.heeds_follow ih (program requests e) hpending ho
    exact ⟨(if_pos hstart).trans hsame, fun hne ↦ (hwithin hne).toResumes⟩

namespace Engine

/-- The tables refer to each other, whatever hooks and handlers do. -/
theorem Driven.tied (h : Driven config e) : e.Tied := by
  induction h with
  | new => exact tied_new config
  | @answer e n program request before returns ih =>
    exact Call.lasts_perform (R := Maintains) (Reentry.lasts_reacting program n) request returns ih

/-- Nothing is left of any call: the engine is at rest and no constraint is marked. -/
structure Quiescent (e : Engine) : Prop extends AtRest e where
  marked : ∀ id, ¬ e.Marked id

theorem quiescent_new (config : Setup) : (new config).Quiescent :=
  ⟨⟨rfl, rfl, rfl⟩, fun _ ⟨_, hc, _⟩ ↦ nomatch hc⟩

theorem Quiescent.idle (h : e.Quiescent) : e.Idle where
  guards := by rw [h.guards]
  pending := h.pending
  marked := h.marked

theorem Quiescent.concludes (hq : e.Quiescent) (h : Concludes e e') : e'.Quiescent where
  guards := by rw [h.guards, hq.guards]
  deferred := h.deferred (congrArg Guards.nesting hq.guards) (congrArg Guards.draining hq.guards)
    hq.toAtRest.deferred
  pending := h.pending.none hq.pending
  marked id hid := hq.marked id (h.marked id hid)

theorem heeds_reacting (other : List Request → Call Unit) (program : Program) (n : Nat)
    (request : Request) :
    Call.Heeds e (Call.perform (Reentry.watched HandlerIdle other program n) request)
      (Call.perform (Reentry.reacting program n) request) :=
  Call.heeds_perform (Reentry.shadows_watched other program n) request

theorem Driven.atRest (h : Driven config e) : e.AtRest := by
  have hquiescent : e.Quiescent := by
    induction h with
    | new => exact quiescent_new config
    | @answer e n program request before returns ih =>
      exact ih.concludes ((heeds_reacting (fun _ ↦ pure ()) program n request fun _ ↦ ih.idle).2 returns)
  exact hquiescent.toAtRest

/-- **Between requests an engine is quiescent**, whatever it was asked before and whatever hooks and
handlers made of it. In the course of the next request, a handler starts only when the engine is
idle: what would be done if it started elsewhere makes no difference. -/
theorem Driven.quiescent (h : Driven config e) : e.Quiescent ∧
    ∀ (other : List Request → Call Unit) (program : Program) (n : Nat) (request : Request),
      Call.perform (Reentry.watched HandlerIdle other program n) request e
        = Call.perform (Reentry.reacting program n) request e := by
  have hquiescent : e.Quiescent := by
    induction h with
    | new => exact quiescent_new config
    | @answer e n program request before returns ih =>
      have hanswer := heeds_reacting (fun _ ↦ pure ()) program n request fun _ ↦ ih.idle
      exact ih.concludes (hanswer.2 returns)
  exact ⟨hquiescent, fun other program n request ↦
    (heeds_reacting other program n request fun _ ↦ hquiescent.idle).1⟩

/-- A constrained field with a handler and a hook. -/
def handled : List Request := [
  .addSolver (.domainSearch 100) false,
  .createObject [("x", .number 2), ("y", .number 8)],
  .always (.inDomain (Expr.fieldOf 0 "x") [.number 2, .number 3])
    { solver := some ⟨0⟩, onError := some { tag := "x", actions := [] } },
  .onWrite ⟨0⟩ "x" []]

/-- The handler and the hook read the field and write what they read to another one. -/
def copying : Program := fun _ _ ↦
  .ask (.read ⟨0⟩ "x") fun outcome _ ↦
    match outcome with
    | .ok (.value v) => .ask (.write ⟨0⟩ "y" v) fun _ _ ↦ .done
    | _ => .done

/-- A write that fails starts the handler, and one that does not runs the hook. -/
theorem quiescent_handled : ((new {}).run handled).Quiescent ∧
    (∀ other, (Call.perform (Reentry.watched HandlerIdle other copying 9)
      (.write ⟨0⟩ "x" (.number 5)) ((new {}).run handled)).2.reported? ⟨0⟩ "y" = some (.number 2)) ∧
    ∀ other, (Call.perform (Reentry.watched HandlerIdle other copying 9)
      (.write ⟨0⟩ "x" (.number 3)) ((new {}).run handled)).2.reported? ⟨0⟩ "y" = some (.number 3) := by
  have hrun : Driven {} ((new {}).run handled) := .run .new (by decide +kernel)
  obtain ⟨hquiescent, hstarts⟩ := hrun.quiescent
  refine ⟨hquiescent, fun other ↦ ?_, fun other ↦ ?_⟩
  · rw [hstarts]
    decide +kernel
  · rw [hstarts]
    decide +kernel

end Engine

end LiveConstraints

import LiveConstraints.Proofs.Matching.Passing
/-!
# Writing and answering the same

With ways back into the engine that match, writing and answering requests match as well. A write is looked
at up to what it bumps: `Call.suggestBy` does what `Call.suggest` does, except that something else is done
in place of the bump. If that matches the bump for a live variable (`Bump.Imitates`), the writes
match, and so do the answers to requests (`Call.matches_performBy`).
-/

namespace LiveConstraints

open Engine

variable {α : Type} {I : Engine → Prop} {R : Engine → Engine → Prop} {e : Engine} {x : VarId}
  {d : Defining} {r r' : Reentry}

/-! ### Other bumps -/

/-- Something done to bump a solver for a write. -/
abbrev Bump := VarId → Origin → Defining → Call Call.Bumped

namespace Call

variable (bump : Bump)

/-- Makes an offer as `offer` does, but bumps otherwise. -/
def offerBy (x : VarId) (v : Value) (origin : Origin) (d : Defining) :
    Call (Bumped × Except EngineError Unit) := do
  let bumped ← bump x origin d
  let result ← attempt (suggestTo d.solver d.handle v)
  return (bumped, result)

/-- Makes the offer to the defining solver as `suggestPrimary` does, but bumps otherwise. -/
def suggestPrimaryBy (x : VarId) (v : Value) (origin : Origin) (d : Defining) :
    Call (Bumped × Except EngineError Unit) := do
  if (← get).guards.suggesting.contains x then return (none, .ok ())
  Step.modifyGuards fun g => { g with suggesting := g.suggesting ++ [x] }
  let outcome ← offerBy bump x v origin d
  Step.modifyGuards fun g => { g with suggesting := g.suggesting.erase x }
  Step.reportSolve d.constraint d.solver .write
  return outcome

/-- Makes the offer and follows up on it as `absorb` does, but bumps otherwise. -/
def absorbBy (r : Reentry) (x : VarId) (v old : Value) (origin : Origin) (force outermost : Bool) :
    Call Written := do
  let defining ← Step.defining x
  let initiating ← Step.initiate defining
  let (bumped, primary) ← match defining with
    | some d => suggestPrimaryBy bump x v origin d
    | none => pure (none, .ok ())
  let result ← match primary with
    | .error err => pure (.error err)
    | .ok () => attempt (followUp r x v old origin force outermost initiating)
  return ⟨initiating, bumped, result⟩

/-- Writes a value to a variable as `suggest` does, but bumps otherwise. -/
def suggestBy (r : Reentry) (x : VarId) (v : Value) (origin : Origin) (force : Bool) :
    Call Value := do
  if (← get).guards.runningHooks then return v
  let old ← storedValue x
  if !force && v.near old then return v
  let outermost := (← get).pendingHooks.isNone
  if outermost then modify fun e => { e with pendingHooks := some [] }
  let written ← absorbBy bump r x v old origin force outermost
  if outermost then modify fun e => { e with pendingHooks := none }
  written.takeBack
  conclude x v old written.result

/-- Writes a field as `writeField` does, but bumps otherwise. -/
def writeFieldBy (r : Reentry) (obj : ObjectId) (field : String) (v : Value) : Call Value := do
  match ← slotOrCreate obj field with
  | .plain _ =>
    setSlot obj field (.plain v)
    return v
  | .intercepted x => topLevel r (suggestBy bump r x v .source false)

/-- Answers a request as `perform` does, but bumps otherwise when it writes a field. -/
def performBy (r : Reentry) : Request → Call Answer
  | .write obj field v => return .value (← writeFieldBy bump r obj field v)
  | request => perform r request

theorem suggestBy_bumpFor (r : Reentry) :
    suggestBy (fun x origin d ↦ bumpFor x origin d) r = suggest r := rfl

theorem performBy_bumpFor (r : Reentry) (request : Request) :
    performBy (fun x origin d ↦ bumpFor x origin d) r request = perform r request := by
  cases request <;> rfl

end Call

/-- For a live variable something else matches the bump. -/
def Bump.Imitates (I : Engine → Prop) (R : Engine → Engine → Prop) (bump : Bump) : Prop :=
  ∀ e x origin d, e.vars.contains x = true →
    Call.Matches I R e (bump x origin d) (Call.bumpFor x origin d)

theorem Bump.imitates_bumpFor [Heedless R] :
    Imitates I R fun x origin d ↦ Call.bumpFor x origin d :=
  fun _ x origin d _ ↦ .of_within (.lift (Heedless.bumpFor x origin d))

/-! ### Live variables -/

namespace Step

/-- What has a defining binding is live. -/
theorem contains_of_defining (hd : (defining x e).1 = some d) : e.vars.contains x = true := by
  unfold defining at hd
  rw [get_run] at hd
  cases hv : e.vars.get? x with
  | none =>
    rw [hv] at hd
    cases hd
  | some v => exact Arena.contains_iff.2 ⟨v, hv⟩

theorem vars_initiate (d : Option Defining) : (initiate d e).2.vars = e.vars := by
  unfold initiate
  cases d.bind Defining.constraint with
  | none => rfl
  | some id =>
    dsimp only
    rw [get_run]
    cases e.constraints.get? id with
    | none => rfl
    | some c =>
      dsimp only
      split <;> rfl

/-- What has a defining binding is live when the offer is made. -/
theorem contains_initiate (hd : (defining x e).1 = some d) (defining? : Option Defining) :
    (initiate defining? (defining x e).2).2.vars.contains x = true := by
  have hrecalls : Recalls e (defining x e).2 := recalls_defining x
  obtain ⟨v, hv⟩ := Arena.contains_iff.1 (contains_of_defining hd)
  obtain ⟨w, hw, -⟩ := hrecalls.exists_after hv
  rw [vars_initiate]
  exact Arena.contains_iff.2 ⟨w, hw⟩

end Step

variable [Lasting R] [Persists I R]

namespace Call

/-! ### Writing -/

theorem matches_runHooks (hr : r.Mirrors I R r') : Matches I R e (runHooks r) (runHooks r') := by
  refine .get_bind (.modify_bind (Passing.beside rfl rfl rfl rfl rfl rfl rfl rfl) ?_)
  refine .step_bind (Heedless.guards _ rfl) fun _ e₁ ↦ ?_
  refine Matches.bind (.forM fun h _ e₂ ↦ ?_) fun _ e₂ _ ↦ ?_
  · refine .within_bind (reads_readField _ _).attempt fun result e₃ _ ↦ ?_
    cases result with
    | error err => exact .of_within (.lift (Step.operating_report _))
    | ok v => exact .step_bind (Passing.recordHook _ _ v) fun _ e₄ ↦ hr.act e₄ h.hook
  · exact .of_within (.lift (Heedless.guards _ rfl))

theorem matches_countWrite (hr : r.Mirrors I R r') (id : ConstraintId) :
    Matches I R e (countWrite r id) (countWrite r' id) := by
  refine .within_bind (stays_changeConstraint fun _ ↦ .bookkeeping) fun _ e₁ _ ↦
    .constraintAt_bind fun c _ ↦ ?_
  by_cases hover : c.interval ≤ c.counter
  · rw [if_pos hover, if_pos hover]
    refine (matches_reevaluate hr id).bind fun _ e₂ _ ↦ ?_
    exact .of_within (.lift (Step.stays_modifyConstraint fun _ ↦ .bookkeeping))
  · rw [if_neg hover, if_neg hover]
    exact .pure _

theorem matches_followUp (hr : r.Mirrors I R r') (x : VarId) (v old : Value) (origin : Origin)
    (force outermost : Bool) (initiating : Option ConstraintId) :
    Matches I R e (followUp r x v old origin force outermost initiating)
      (followUp r' x v old origin force outermost initiating) := by
  have hrest : ∀ e₁, Matches I R e₁ (do
      propagate r x v old origin force
      collectHook x
      if outermost then runHooks r) (do
      propagate r' x v old origin force
      collectHook x
      if outermost then runHooks r') := by
    intro e₁
    refine (matches_propagate hr x v old origin force).bind fun _ e₂ _ ↦ ?_
    refine .within_bind (stays_collectHook x) fun _ e₃ _ ↦ ?_
    cases outermost with
    | true => exact matches_runHooks hr
    | false => exact .pure _
  cases initiating with
  | none => exact hrest e
  | some id => exact (matches_countWrite hr id).bind fun _ e₁ _ ↦ hrest e₁

theorem matches_offerBy {bump : Bump} (hbump : bump.Imitates I R)
    (hx : e.vars.contains x = true) (v : Value) (origin : Origin) (d : Defining) :
    Matches I R e (offerBy bump x v origin d) (offer x v origin d) := by
  refine (hbump e x origin d hx).bind fun bumped e₁ _ ↦ ?_
  exact .within_bind (operating_suggestTo d.solver d.handle v).attempt fun _ _ _ ↦ .pure _

theorem matches_suggestPrimaryBy {bump : Bump} (hbump : bump.Imitates I R)
    (hx : e.vars.contains x = true) (v : Value) (origin : Origin) (d : Defining) :
    Matches I R e (suggestPrimaryBy bump x v origin d) (suggestPrimary x v origin d) := by
  refine .get_bind ?_
  cases e.guards.suggesting.contains x with
  | true => exact .pure _
  | false =>
    let raised : Engine :=
      { e with guards := { e.guards with suggesting := e.guards.suggesting ++ [x] } }
    have hlive : raised.vars.contains x = true := hx
    have hoffer := matches_offerBy hbump hlive v origin d
    refine .run_bind (Heedless.guards _ rfl) (hoffer.bind fun outcome e₁ _ ↦ ?_)
    refine .step_bind (Heedless.guards _ rfl) fun _ e₂ ↦ ?_
    exact .step_bind (Step.operating_reportSolve _ _ _) fun _ _ ↦ .pure _

theorem matches_absorbBy {bump : Bump} (hbump : bump.Imitates I R) (hr : r.Mirrors I R r')
    (x : VarId) (v old : Value) (origin : Origin) (force outermost : Bool) :
    Matches I R e (absorbBy bump r x v old origin force outermost)
      (absorb r' x v old origin force outermost) := by
  refine .run_bind (Reads.defining x) (.run_bind (Step.stays_initiate _) ?_)
  have hfollow : ∀ (e₁ : Engine) (bumped : Bumped) initiating, Matches I R e₁ (do
      let result ← attempt (followUp r x v old origin force outermost initiating)
      return (⟨initiating, bumped, result⟩ : Written)) (do
      let result ← attempt (followUp r' x v old origin force outermost initiating)
      return (⟨initiating, bumped, result⟩ : Written)) := fun e₁ bumped initiating ↦
    (matches_followUp hr x v old origin force outermost initiating).attempt.bind fun _ _ _ ↦ .pure _
  cases hd : (Step.defining x e).1 with
  | none => exact hfollow _ none _
  | some d =>
    have hx := Step.contains_initiate hd (some d)
    refine (matches_suggestPrimaryBy hbump hx v origin d).bind fun primary e₁ _ ↦ ?_
    obtain ⟨bumped, _ | _⟩ := primary
    · exact .pure _
    · exact hfollow e₁ bumped _

/-- **Writing**, with a bump that imitates the one of the engine. -/
theorem matches_suggestBy {bump : Bump} (hbump : bump.Imitates I R) (hr : r.Mirrors I R r')
    (x : VarId) (v : Value) (origin : Origin) (force : Bool) :
    Matches I R e (suggestBy bump r x v origin force) (suggest r' x v origin force) := by
  refine .get_bind ?_
  cases e.guards.runningHooks with
  | true => exact .pure _
  | false =>
    refine .within_bind (reads_storedValue x) fun old e₁ _ ↦ ?_
    dsimp only
    cases !force && v.near old with
    | true => exact .pure _
    | false =>
      refine .get_bind ?_
      have hset : ∀ (hooks : Option (List PendingHook)) (e₂ : Engine),
          R e₂ { e₂ with pendingHooks := hooks } :=
        fun _ _ ↦ Passing.beside rfl rfl rfl rfl rfl rfl rfl rfl
      have hend : ∀ (w : Written) (e₂ : Engine), Within R e₂ (do
          w.takeBack
          conclude x v old w.result) := fun w e₂ ↦
        .lift_bind (stays_takeBack Heedless.unbump w) fun _ _ _ _ ↦ stays_conclude x v old w.result
      cases e₁.pendingHooks.isNone with
      | false =>
        exact (matches_absorbBy hbump hr x v old origin force false).bind fun w e₂ _ ↦
          .of_within (hend w e₂)
      | true =>
        refine .modify_bind (hset _ _) ?_
        refine (matches_absorbBy hbump hr x v old origin force true).bind fun w e₂ _ ↦ ?_
        exact .modify_bind (hset _ _) (.of_within (hend w _))

/-- Writing, with the bump of the engine. -/
theorem matches_suggest (hr : r.Mirrors I R r') (x : VarId) (v : Value) (origin : Origin)
    (force : Bool) : Matches I R e (suggest r x v origin force) (suggest r' x v origin force) := by
  rw [← suggestBy_bumpFor r]
  exact matches_suggestBy Bump.imitates_bumpFor hr x v origin force

/-! ### Deferred work -/

theorem matches_drain (hr : r.Mirrors I R r') (n : Nat) (failures : List EngineError) :
    Matches I R e (drain r n failures) (drain r' n failures) := by
  induction n generalizing e failures with
  | zero =>
    refine .get_bind ?_
    cases e.deferred.isEmpty with
    | true => exact .pure _
    | false => exact .tooDeep
  | succ n ih =>
    refine .within_bind lasts_takeDeferred fun work? e₁ _ ↦ ?_
    match work? with
    | none => exact .pure _
    | some (.rethrow err) => exact ih _
    | some (.handle handler errors) =>
      have hhandle : Matches I R e₁ (handle r handler errors) (handle r' handler errors) :=
        .step_bind (Lasting.aside _ _ _ rfl) fun _ e₂ ↦ hr.act e₂ handler.actions
      exact hhandle.bind fun _ e₂ _ ↦ ih _

theorem matches_settle (hr : r.Mirrors I R r') : Matches I R e (settle r) (settle r') := by
  refine .get_bind ?_
  dsimp only
  cases decide (0 < e.guards.nesting) || e.guards.draining with
  | true => exact .pure _
  | false =>
    refine .step_bind (Heedless.guards _ rfl) fun _ e₁ ↦ ?_
    rw [hr.patience]
    refine (matches_drain hr r'.patience []).bind fun failures e₂ _ ↦ ?_
    refine .step_bind (Heedless.guards _ rfl) fun _ e₃ ↦ ?_
    cases EngineError.merge? failures with
    | some err => exact .fail _
    | none => exact .pure _

theorem matches_topLevel (hr : r.Mirrors I R r') {call call' : Call α}
    (hcall : ∀ e, Matches I R e call call') :
    Matches I R e (topLevel r call) (topLevel r' call') := by
  refine .step_bind (Heedless.guards _ rfl) fun _ e₁ ↦ ?_
  refine (hcall e₁).attempt.bind fun result e₂ _ ↦ ?_
  refine .step_bind (Heedless.guards _ rfl) fun _ e₃ ↦ ?_
  refine (matches_settle hr).attempt.bind fun settled e₄ _ ↦ ?_
  refine (Matches.ofExcept result).bind fun a e₅ _ ↦ ?_
  exact (Matches.ofExcept settled).bind fun _ _ _ ↦ .pure _

/-! ### Requests -/

theorem matches_writeFieldBy {bump : Bump} (hbump : bump.Imitates I R) (hr : r.Mirrors I R r')
    (obj : ObjectId) (field : String) (v : Value) :
    Matches I R e (writeFieldBy bump r obj field v) (writeField r' obj field v) := by
  have hcreate := gives_slotOrCreate (e := e) obj field
  refine .given_bind (hcreate.within.mono fun _ ↦ Reentrant.furnish) fun slot e₁ hrun ↦ ?_
  have free := hcreate.result slot e₁ hrun
  cases slot with
  | plain _ =>
    have hset := (furnishes_setPlain free v).mono fun _ ↦ Reentrant.furnish (R := R)
    exact .within_bind hset fun _ _ _ ↦ .pure _
  | intercepted x =>
    exact matches_topLevel hr fun e₂ ↦ matches_suggestBy hbump hr x v .source false

theorem matches_applyBatch (hr : r.Mirrors I R r') (session : EditSession) (values : List Value) :
    Matches I R e (applyBatch r session values) (applyBatch r' session values) := by
  refine .within_bind (operating_resolveAll session values) fun _ e₁ _ ↦ ?_
  refine Matches.bind (.forIn fun field _ _ e₂ ↦ ?_) fun _ _ _ ↦ .pure _
  refine .step_bind (Step.reads_read field.1) fun v e₃ ↦ ?_
  exact (hr.suggest e₃ field.1 v .propagation false).bind fun _ _ _ ↦ .pure _

theorem matches_updateEdit (hr : r.Mirrors I R r') (session : EditSession) (values : List Value) :
    Matches I R e (updateEdit r session values) (updateEdit r' session values) := by
  unfold updateEdit
  by_cases hsize : values.length ≠ session.size
  · rw [if_pos hsize, if_pos hsize]
    exact .fail_bind
  · rw [if_neg hsize, if_neg hsize]
    exact matches_topLevel hr fun _ ↦ matches_applyBatch hr session values

theorem matches_always (hr : r.Mirrors I R r') (predicate : Expr) (options : ConstraintOptions) :
    Matches I R e (always r predicate options) (always r' predicate options) :=
  matches_topLevel hr fun _ ↦ matches_maintain hr predicate options

theorem matches_once (hr : r.Mirrors I R r') (predicate : Expr) (options : ConstraintOptions) :
    Matches I R e (once r predicate options) (once r' predicate options) := by
  refine (matches_always hr predicate options).bind fun id e₁ _ ↦ ?_
  cases id with
  | none => exact .pure _
  | some id => exact .step_bind (Switching.disable id) fun _ _ ↦ .pure _

theorem matches_stay (hr : r.Mirrors I R r') (predicate : Expr) (options : ConstraintOptions) :
    Matches I R e (stay r predicate options) (stay r' predicate options) :=
  matches_topLevel hr fun _ ↦ .of_within (stays_holdStays predicate options)

theorem matches_switchOn (hr : r.Mirrors I R r') (id : ConstraintId) :
    Matches I R e (switchOn r id) (switchOn r' id) :=
  matches_topLevel hr fun _ ↦ matches_enable hr id false

theorem matches_setPriority (hr : r.Mirrors I R r') (id : ConstraintId) (priority : Priority) :
    Matches I R e (setPriority r id priority) (setPriority r' id priority) := by
  refine .constraintAt_bind fun c _ ↦ ?_
  have hchange : ∀ e₁, Within R e₁ (changeConstraint id fun c => { c with priority }) :=
    fun _ ↦ stays_changeConstraint fun _ ↦ .bookkeeping
  cases c.enabled with
  | false => exact .within_bind (hchange e) fun _ _ _ ↦ .pure _
  | true =>
    refine .step_bind (Switching.disable id) fun _ e₁ ↦ ?_
    exact .within_bind (hchange e₁) fun _ e₂ _ ↦ matches_switchOn hr id

theorem matches_reselect (hr : r.Mirrors I R r') (id : ConstraintId) :
    Matches I R e (reselect r id) (reselect r' id) :=
  matches_topLevel hr fun _ ↦ matches_reevaluate hr id

/-- A request that leads to nothing but an answer. -/
theorem Matches.answered {m m' : Call α} {f : α → Answer} (h : Matches I R e m m') :
    Matches I R e (m >>= fun a ↦ Pure.pure (f a)) (m' >>= fun a ↦ Pure.pure (f a)) :=
  h.bind fun _ _ _ ↦ .pure _

/-- **Answering**, with a bump that imitates the one of the engine. -/
theorem matches_performBy {bump : Bump} (hbump : bump.Imitates I R) (hr : r.Mirrors I R r')
    (request : Request) : Matches I R e (performBy bump r request) (perform r' request) := by
  -- what does not lead back is the same with any ways back
  have hplain : Within R e (perform .exhausted request) :=
    lasts_perform Reentry.lasts_exhausted request
  cases request with
  | write obj field v => exact (matches_writeFieldBy hbump hr obj field v).answered
  | always predicate options => exact (matches_always hr predicate options).answered
  | once predicate options => exact (matches_once hr predicate options).answered
  | stay predicate options => exact (matches_stay hr predicate options).answered
  | enable id => exact (matches_switchOn hr id).answered
  | setPriority id priority => exact (matches_setPriority hr id priority).answered
  | reevaluate id => exact (matches_reselect hr id).answered
  | updateEdit session values =>
    refine .get_bind ?_
    cases e.session? session with
    | none => exact .pure _
    | some s => exact (matches_updateEdit hr s values).answered
  | _ => exact .of_within hplain

/-- Answering, with the bump of the engine. -/
theorem matches_perform (hr : r.Mirrors I R r') (request : Request) :
    Matches I R e (perform r request) (perform r' request) := by
  rw [← performBy_bumpFor r request]
  exact matches_performBy Bump.imitates_bumpFor hr request

end Call

end LiveConstraints

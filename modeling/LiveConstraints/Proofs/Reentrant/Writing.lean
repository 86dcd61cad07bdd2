import LiveConstraints.Proofs.Reentrant
/-!
# Writing and answering within a reentrant relation

What a write bumps, and what it stores, is treated where a relation has something to say about it: a
relation may be reentrant and still notice that a solver is heavier while a write is in progress.
Given the bare write, a reentrant relation is kept by what is made of it, up to answering a request
(`Call.stays_perform`). What the engine passes on bumps nothing. A relation that stored values are no
matter for keeps to it without further assumptions (`Call.stays_passOn`).
-/

namespace LiveConstraints

open Engine

variable {α : Type} {R : Engine → Engine → Prop} {e e' : Engine} {r : Reentry} {x : VarId}
  {id : ConstraintId}

namespace Call

/-! ### What a write leads through -/

/-- An offer is made while the variable is marked, or not at all. -/
theorem of_suggestPrimary {P : Bumped → Engine → Prop} {v : Value} {origin : Origin} {d : Defining}
    {b : Bumped} {result : Except EngineError Unit}
    (hrun : suggestPrimary x v origin d e = (.ok (b, result), e')) (hnone : P none e)
    (hoffer : ∀ e₁, offer x v origin d
        { e with guards := { e.guards with suggesting := e.guards.suggesting ++ [x] } }
          = (.ok (b, result), e₁) →
      P b (Step.reportSolve d.constraint d.solver .write
        { e₁ with guards := { e₁.guards with suggesting := e₁.guards.suggesting.erase x } }).2) :
    P b e' := by
  unfold suggestPrimary at hrun
  rw [get_run] at hrun
  split at hrun
  · cases hrun
    exact hnone
  · obtain ⟨_, e₁, hraise, hrun⟩ := of_bind_ok hrun
    obtain ⟨outcome, e₂, hrun₂, hrun⟩ := of_bind_ok hrun
    obtain ⟨_, e₃, hlower, hrun⟩ := of_bind_ok hrun
    obtain ⟨_, e₄, hreport, hrun⟩ := of_bind_ok hrun
    cases hrun
    cases hraise
    cases hlower
    cases hreport
    exact hoffer e₂ hrun₂

/-- A write is an offer, if there is someone to make it to, and what follows on it. What holds of the
bump and the engine after the offer, and is kept by what follows, holds in the end. -/
theorem of_absorb {P : Engine → Prop} {Q : Bumped → Engine → Prop} {v old : Value} {origin : Origin}
    {force outermost : Bool} {w : Written}
    (hrun : absorb r x v old origin force outermost e = (.ok w, e'))
    (hstart : P (Step.initiate (Step.defining x e).1 (Step.defining x e).2).2)
    (hnone : ∀ {e}, P e → Q none e)
    (hprimary : ∀ {d b result e e'}, P e →
      suggestPrimary x v origin d e = (.ok (b, result), e') → Q b e')
    (hfollow : ∀ {b e} initiating, Q b e →
      Within (fun _ ↦ Q b) e (followUp r x v old origin force outermost initiating)) :
    Q w.bumped e' := by
  have hrest : ∀ {initiating : Option ConstraintId} {b : Bumped} {e₁ : Engine}, Q b e₁ → (do
      let result ← attempt (followUp r x v old origin force outermost initiating)
      return (⟨initiating, b, result⟩ : Written) : Call Written) e₁ = (.ok w, e') → Q w.bumped e' := by
    intro initiating b e₁ hb hrun
    obtain ⟨result, e₂, hattempt, hlast⟩ := of_bind_ok hrun
    cases hlast
    exact (hfollow initiating hb).attempt.of_ok hattempt
  obtain ⟨d, e₁, hd, hrun⟩ := of_bind_ok hrun
  obtain ⟨initiating, e₂, hinitiate, hrun⟩ := of_bind_ok hrun
  have hstart : P e₂ := by
    rw [lift_run] at hd hinitiate
    obtain ⟨hfirst, rfl⟩ := Prod.mk.inj hd
    obtain ⟨-, rfl⟩ := Prod.mk.inj hinitiate
    rwa [Except.ok.inj hfirst] at hstart
  cases d with
  | none => exact hrest (hnone hstart) hrun
  | some d =>
    obtain ⟨⟨b, result⟩, e₃, hoffer, hrun⟩ := of_bind_ok hrun
    have hoffered := hprimary hstart hoffer
    cases result with
    | error err =>
      cases hrun
      exact hoffered
    | ok _ => exact hrest hoffered hrun

/-- What the engine passes on bumps nothing. -/
theorem bumped_of_absorb {v old : Value} {force outermost : Bool} {w : Written}
    (hrun : absorb r x v old .propagation force outermost e = (.ok w, e')) : w.bumped = none := by
  refine of_absorb (P := fun _ ↦ True) (Q := fun b _ ↦ b = none) hrun trivial (fun _ ↦ rfl)
    (fun {d b result e₁ e₂} _ hprimary ↦ ?_) fun _ hb _ ↦ hb
  refine of_suggestPrimary (P := fun b _ ↦ b = none) hprimary rfl fun e₃ hoffer ↦ ?_
  have hnothing : (attempt (suggestTo d.solver d.handle v) >>= fun result ↦
      pure ((none : Bumped), result)) _ = (.ok (b, result), e₃) := hoffer
  obtain ⟨answer, e₄, -, hlast⟩ := of_bind_ok hnothing
  cases hlast
  rfl

/-! ### Deferred work -/

/-- Taking up work, given that what is deferred is no matter. -/
theorem stays_takeDeferred [IsPreorder Engine R]
    (hdeferred : ∀ {e : Engine} (deferred : List Deferred), R e { e with deferred }) :
    Within R e takeDeferred := by
  refine .get_bind ?_
  split
  · exact .pure _
  · exact .modify_bind (hdeferred _) (.pure _)

/-- Draining, given that taking up work and handing it over stay within the relation. -/
theorem stays_drain [IsPreorder Engine R] (htake : ∀ {e}, Within R e takeDeferred)
    (hhandle : ∀ {e} handler errors, Within R e (handle r handler errors)) (n : Nat)
    (failures : List EngineError) : Within R e (drain r n failures) := by
  induction n generalizing e failures with
  | zero =>
    refine .get_bind ?_
    split
    · exact .pure _
    · exact .tooDeep
  | succ n ih =>
    refine htake.bind fun work e₁ _ _ ↦ ?_
    match work with
    | none => exact .pure _
    | some (.handle handler errors) =>
      exact (hhandle handler errors).bind fun _ _ _ _ ↦ ih _
    | some (.rethrow _) => exact ih _

/-- Settling, given that the guard is no matter. -/
theorem stays_settle [IsPreorder Engine R]
    (hguard : ∀ {e : Engine} (on : Bool), R e { e with guards := { e.guards with draining := on } })
    (htake : ∀ {e}, Within R e takeDeferred)
    (hhandle : ∀ {e} handler errors, Within R e (handle r handler errors)) :
    Within R e (settle r) := by
  refine .get_bind ?_
  dsimp only
  split
  · exact .pure _
  · have hguards : ∀ (e₁ : Engine) (on : Bool),
        Step.Within R e₁ (Step.modifyGuards fun g => { g with draining := on }) :=
      fun _ on ↦ hguard on
    refine .lift_bind (hguards e true) fun _ e₁ _ _ ↦ ?_
    refine (stays_drain htake hhandle r.patience []).bind fun failures e₂ _ _ ↦ ?_
    refine .lift_bind (hguards e₂ false) fun _ e₃ _ _ ↦ ?_
    split
    · exact .fail _
    · exact .pure _

section Passing

variable [Passing R]

/-! ### Writing -/

/-- Counting an initiating write, given what selecting anew does. -/
theorem stays_countWrite (hselect : ∀ {e}, Within R e (reevaluate r id)) :
    Within R e (countWrite r id) := by
  refine Within.bind (stays_changeConstraint fun _ ↦ .bookkeeping) fun _ e₁ _ _ ↦
    .constraintAt_bind fun c _ ↦ ?_
  split
  · refine hselect.bind fun _ e₂ _ _ ↦ .lift ?_
    exact Step.stays_modifyConstraint fun _ ↦ .bookkeeping
  · exact .pure _

/-- What follows on an adopted value that no constraint counts, given what propagating it and running
hooks does. -/
theorem stays_followUp_none {v old : Value} {origin : Origin} {force outermost : Bool}
    (hspread : ∀ {e}, Within R e (spread r x v old origin))
    (hhooks : ∀ e', R e e' → Within R e' (runHooks r)) :
    Within R e (followUp r x v old origin force outermost none) := by
  have hrest : Within R e (do
      propagate r x v old origin force
      collectHook x
      if outermost then runHooks r) := by
    refine (stays_propagate hspread).bind fun _ e₁ _ h₁ ↦ ?_
    refine (stays_collectHook x).bind fun _ e₂ _ h₂ ↦ ?_
    split
    · exact hhooks e₂ (trans_of R h₁ h₂)
    · exact .pure _
  exact hrest

/-- What follows on an adopted value. -/
theorem stays_followUp {v old : Value} {origin : Origin} {force outermost : Bool}
    (hcount : ∀ {e} id, Within R e (countWrite r id))
    (hspread : ∀ {e}, Within R e (spread r x v old origin))
    (hhooks : ∀ e', R e e' → Within R e' (runHooks r)) (initiating : Option ConstraintId) :
    Within R e (followUp r x v old origin force outermost initiating) := by
  cases initiating with
  | none => exact stays_followUp_none hspread hhooks
  | some id =>
    exact (hcount id).bind fun _ e₁ _ h₁ ↦
      stays_followUp_none hspread fun e₂ h₂ ↦ hhooks e₂ (trans_of R h₁ h₂)

/-- A write, up to taking back what it bumped and marked, given what it offers and what follows. -/
theorem stays_absorb {v old : Value} {origin : Origin} {force outermost : Bool}
    (hprimary : ∀ {e} d, Within R e (suggestPrimary x v origin d))
    (hfollow : ∀ e', R e e' → ∀ initiating,
      Within R e' (followUp r x v old origin force outermost initiating)) :
    Within R e (absorb r x v old origin force outermost) := by
  have hrest : ∀ (initiating : Option ConstraintId) (bumped : Bumped) (e₁ : Engine), R e e₁ →
      Within R e₁ (do
        let result ← attempt (followUp r x v old origin force outermost initiating)
        return (⟨initiating, bumped, result⟩ : Written)) := fun initiating bumped e₁ h₁ ↦
    (hfollow e₁ h₁ initiating).attempt.bind fun _ _ _ _ ↦ .pure _
  refine .lift_bind (Reads.defining x) fun d e₁ _ h₁ ↦ ?_
  refine .lift_bind (Step.stays_initiate d) fun initiating e₂ _ h₂ ↦ ?_
  have h₂ := trans_of R h₁ h₂
  cases d with
  | none => exact hrest initiating none e₂ h₂
  | some d =>
    refine (hprimary d).bind fun primary e₃ _ h₃ ↦ ?_
    obtain ⟨bumped, _ | _⟩ := primary
    · exact .pure _
    · exact hrest initiating bumped e₃ (trans_of R h₂ h₃)

theorem stays_conclude (x : VarId) (v old : Value) (result : Except EngineError Unit) :
    Within R e (conclude x v old result) := by
  have hhandOver : ∀ (e₁ : Engine) (err : EngineError), Within R e₁ (handOver x err) := by
    intro e₁ err
    refine .get_bind ?_
    dsimp only
    split
    · exact .lift (Passing.defer _)
    · exact .fail _
  cases result with
  | ok _ => exact .pure _
  | error err =>
    refine .lift_bind (Step.reads_read x) fun now e₁ _ _ ↦ ?_
    split
    · exact (hhandOver e₁ err).bind fun _ _ _ _ ↦ .pure _
    · exact .get_bind (.fail _)

/-- **Writing**, given that what a write takes back makes up for what it did. -/
theorem stays_suggest {v : Value} {origin : Origin} {force : Bool}
    (hwrite : ∀ {old outermost e₀ w e₁} hooks, e.guards.runningHooks = false → R e e₀ →
      absorb r x v old origin force outermost e₀ = (.ok w, e₁) →
        R e₀ (w.takeBack { e₁ with pendingHooks := hooks }).2) :
    Within R e (suggest r x v origin force) := by
  refine .get_bind ?_
  split
  · exact .pure _
  next hrunning =>
  refine .bind (reads_storedValue x) fun old e₁ _ h₁ ↦ ?_
  split
  · exact .pure _
  refine .get_bind ?_
  have hset : ∀ (hooks : Option (List PendingHook)) (e₂ : Engine),
      (modify fun e => { e with pendingHooks := hooks } : Call PUnit) e₂
        = (.ok ⟨⟩, { e₂ with pendingHooks := hooks }) := fun _ _ ↦ rfl
  have hhooks : ∀ (hooks : Option (List PendingHook)) (e₂ : Engine),
      R e₂ { e₂ with pendingHooks := hooks } :=
    fun _ _ ↦ Passing.beside rfl rfl rfl rfl rfl rfl rfl rfl
  have hend : ∀ (w : Written) (e₂ : Engine), R e₁ (w.takeBack e₂).2 → Within (fun _ ↦ R e₁) e₂ (do
      w.takeBack
      conclude x v old w.result) := fun w e₂ h₂ ↦ .ok_bind (lift_run _ _) fun hne ↦
    trans_of R h₂ (stays_conclude x v old w.result hne)
  have hfalse : e.guards.runningHooks = false := by simpa using hrunning
  show Within (fun _ ↦ R e₁) e₁ _
  dsimp only
  split
  · refine .ok_bind (hset (some []) e₁)
      ((unfailing_absorb _ _ _ _ _ _).within_bind fun w e₂ hrun ↦ ?_)
    refine .ok_bind (hset none e₂) (hend w _ ?_)
    have hwritten := hwrite none hfalse (trans_of R h₁ (hhooks (some []) e₁)) hrun
    exact trans_of R (hhooks (some []) e₁) hwritten
  · exact (unfailing_absorb _ _ _ _ _ _).within_bind fun w e₂ hrun ↦
      hend w e₂ (hwrite e₂.pendingHooks hfalse h₁ hrun)

/-! ### Hooks and calls of their own -/

theorem stays_runHook (hact : ∀ e', R e e' → ∀ requests, Within R e' (r.act requests))
    (h : PendingHook) : Within R e (runHook r h) := by
  refine (reads_readField _ _).attempt.bind fun result e₁ _ h₁ ↦ ?_
  cases result with
  | error err => exact .lift (Step.operating_report _)
  | ok v =>
    exact .lift_bind (Passing.recordHook _ _ v) fun _ e₂ _ h₂ ↦ hact e₂ (trans_of R h₁ h₂) _

/-- Running hooks, given what they do while they are marked as running. -/
theorem stays_runHooks (hunfailing : ∀ requests, Unfailing (r.act requests))
    (hact : ∀ {e₁ e₂}, R e e₁ → R { e₁ with guards := { e₁.guards with runningHooks := true } } e₂ →
      ∀ requests, Within R e₂ (r.act requests))
    (hlower : ∀ {e₁ e₂}, R e e₁ → R { e₁ with guards := { e₁.guards with runningHooks := true } } e₂ →
      R e₁ { e₂ with guards := { e₂.guards with runningHooks := false } }) :
    Within R e (runHooks r) := by
  have htaken : R e { e with pendingHooks := none } :=
    Passing.beside rfl rfl rfl rfl rfl rfl rfl rfl
  have hhooks : ∀ hooks : List PendingHook, Within R { e with
      pendingHooks := none
      guards := { e.guards with runningHooks := true } } (hooks.forM (runHook r)) := fun hooks ↦
    .forM fun h _ e₂ h₂ ↦ stays_runHook (fun e₃ h₃ ↦ hact htaken (trans_of R h₂ h₃)) h
  refine .get_bind (.modify_bind htaken ?_)
  exact .bracket (f := fun g ↦ { g with runningHooks := true })
    (g := fun g ↦ { g with runningHooks := false }) (k := fun _ ↦ pure ()) (hhooks _)
    (fun err ↦ Unfailing.forM (fun h _ ↦ unfailing_runHook hunfailing h) _ err)
    (fun e₂ h₂ ↦ hlower htaken h₂) fun _ _ _ _ ↦ .pure _

omit [Passing R] in
/-- A call of its own. -/
theorem stays_topLevel [IsPreorder Engine R] {call : Call α}
    (hnest : ∀ {e₁}, R { e with guards := { e.guards with nesting := e.guards.nesting + 1 } } e₁ →
      R e { e₁ with guards := { e₁.guards with nesting := e₁.guards.nesting - 1 } })
    (hcall : ∀ {e}, Within R e call) (hsettle : ∀ {e}, Within R e (settle r)) :
    Within R e (topLevel r call) := by
  have hwhole : ∀ e₁, Within R e₁ (attempt call) := fun _ ↦ hcall.attempt
  refine .bracket (f := fun g ↦ { g with nesting := g.nesting + 1 })
    (g := fun g ↦ { g with nesting := g.nesting - 1 }) (hwhole _) (attempt_ne_failed _ _)
    (fun e₁ h₁ ↦ hnest h₁) fun result e₁ _ _ ↦ ?_
  refine hsettle.attempt.bind fun settled e₂ _ _ ↦ ?_
  exact (Within.ofExcept result).bind fun _ _ _ _ ↦ (Within.ofExcept settled).bind
    fun _ _ _ _ ↦ .pure _

/-! ### Requests -/

theorem stays_applyBatch (hr : r.Stays R) (session : EditSession) (values : List Value) :
    Within R e (applyBatch r session values) := by
  refine (operating_resolveAll session values).bind fun _ e₁ _ _ ↦
    Within.bind (.forIn fun field _ _ e₂ _ ↦ ?_) fun _ _ _ _ ↦ .pure _
  refine .lift_bind (Step.reads_read field.1) fun v e₃ _ _ ↦ ?_
  exact (hr.suggest field.1 v).bind fun _ _ _ _ ↦ .pure _

end Passing

section Reentrant

variable [Reentrant R]

/-- Holding stays, without taking up what was deferred. -/
def holdStays (predicate : Expr) (options : ConstraintOptions) : Call ConstraintId := do
  match (← get).stayingSolver? options with
  | none => fail (.noSolver [])
  | some s =>
    let id ← build predicate s options .stay
    let c ← constraintAt id
    c.vars.forM (attachStay s c.priority)
    return id

theorem stays_holdStays (predicate : Expr) (options : ConstraintOptions) :
    Within R e (holdStays predicate options) := by
  refine .get_bind ?_
  split
  · exact .fail _
  · next s _ =>
    refine (Selecting.build predicate s options .stay).bind fun id e₁ _ _ ↦ ?_
    refine .constraintAt_bind fun c _ ↦ Within.bind (.forM fun x _ e₂ _ ↦ ?_) fun _ _ _ _ ↦ .pure _
    exact operating_attachStay s c.priority x

theorem stays_writeField (hwrite : ∀ {e} x v, Within R e (topLevel r (suggest r x v .source false)))
    (obj : ObjectId) (field : String) (v : Value) : Within R e (writeField r obj field v) := by
  have hcreate := gives_slotOrCreate (e := e) obj field
  refine (hcreate.within.mono fun _ ↦ Reentrant.furnish).bind fun slot e₁ hrun _ ↦ ?_
  have free := hcreate.result slot e₁ hrun
  cases slot with
  | plain _ =>
    exact ((furnishes_setPlain free v).mono fun _ ↦ Reentrant.furnish).bind fun _ _ _ _ ↦ .pure _
  | intercepted x => exact hwrite x v

theorem stays_unconstrainAll (obj : ObjectId) : Within R e (unconstrainAll obj) := by
  refine (within_fieldNames obj).bind fun names e₁ _ _ ↦ ?_
  refine Within.bind (.forIn fun name _ _ e₂ _ ↦ .get_bind ?_) fun _ _ _ _ ↦ .pure _
  split
  · exact (Reentrant.unconstrain obj name).bind fun _ _ _ _ ↦ .pure _
  · exact .pure _

/-- A request that leads to nothing but an answer. -/
theorem Within.answered {R : Engine → Engine → Prop} [IsPreorder Engine R] {m : Call α}
    {f : α → Answer} (h : Within R e m) : Within R e (m >>= fun a ↦ Pure.pure (f a)) :=
  h.bind fun _ _ _ _ ↦ .pure _

/-- **Answering.** A request stays within the relation if calls of their own do, and if setting flags
and weights does where it is asked for. -/
theorem stays_perform (hr : r.Stays R)
    (hwrite : ∀ {e} x v, Within R e (topLevel r (suggest r x v .source false)))
    (htop : ∀ {e} {α : Type} {call : Call α}, (∀ {e}, Within R e call) → Within R e (topLevel r call))
    {request : Request}
    (hflags : ∀ obj field on, request = .setReadonly obj field on →
      Within R e (setReadonly obj field on))
    (hweight : ∀ s weight, request = .setWeight s weight → Within R e (setWeight s weight)) :
    Within R e (perform r request) := by
  have haside : ∀ {g : Engine → Engine} {a : Answer}, R e (g e) →
      Within R e (do modify g; return a) := fun h ↦ .modify_bind h (.pure _)
  have halways : ∀ predicate options, Within R e (always r predicate options) :=
    fun predicate options ↦ htop (stays_maintain hr predicate options)
  have hswitch : ∀ {e} id, Within R e (switchOn r id) := fun id ↦ htop (stays_enable hr id false)
  cases request with
  | createObject fields =>
    exact ((furnishes_createObject fields).mono fun _ ↦ Reentrant.furnish).answered
  | read obj field => exact (reads_readField obj field).answered
  | write obj field v => exact (stays_writeField hwrite obj field v).answered
  | fieldNames obj => exact (within_fieldNames obj).answered
  | isConstrained obj field => exact .get_bind (.pure _)
  | always predicate options => exact (halways predicate options).answered
  | once predicate options =>
    refine Within.answered ((halways predicate options).bind fun id e₁ _ _ ↦ ?_)
    cases id with
    | none => exact .pure _
    | some id => exact .lift_bind (Switching.disable id) fun _ _ _ _ ↦ .pure _
  | stay predicate options => exact (htop (stays_holdStays predicate options)).answered
  | enable id => exact (hswitch id).answered
  | disable id => exact (Within.lift (Switching.disable id)).answered
  | setPriority id priority =>
    refine Within.answered (.constraintAt_bind fun c _ ↦ ?_)
    have hchange : ∀ e₁, Within R e₁ (changeConstraint id fun c => { c with priority }) :=
      fun _ ↦ stays_changeConstraint fun _ ↦ .bookkeeping
    cases c.enabled with
    | false => exact (hchange e).bind fun _ _ _ _ ↦ .pure _
    | true =>
      refine .lift_bind (Switching.disable id) fun _ e₁ _ _ ↦ ?_
      exact (hchange e₁).bind fun _ e₂ _ _ ↦ hswitch id
  | setInterval id interval =>
    refine Within.answered (m := setInterval id interval) (stays_changeConstraint ?_)
    exact fun _ ↦ .bookkeeping
  | reevaluate id => exact (htop (stays_reevaluate hr id)).answered
  | listConstraints => exact .get_bind (.pure _)
  | describe id => exact .constraintAt_bind fun _ _ ↦ .pure _
  | unconstrain obj field => exact (Reentrant.unconstrain obj field).answered
  | unconstrainAll obj => exact (stays_unconstrainAll obj).answered
  | setReadonly obj field on => exact (hflags obj field on rfl).answered
  | defining obj field => exact (reads_definingOf obj field).answered
  | onWrite obj field actions =>
    exact ((furnishes_onWrite obj field actions).mono fun _ ↦ Reentrant.furnish).answered
  | openEdit obj fields => exact (operating_openEdit obj fields).answered
  | updateEdit session values =>
    refine .get_bind ?_
    split
    · refine Within.answered ?_
      unfold updateEdit
      split
      · exact .fail_bind
      · exact htop (stays_applyBatch hr _ values)
    · exact .pure _
  | finishEdit session =>
    refine .get_bind (.get_bind ?_)
    split
    · refine .modify_bind (Passing.beside rfl rfl rfl rfl rfl rfl rfl rfl) ?_
      exact (operating_finishEdit _).bind fun _ _ _ _ ↦ .pure _
    · exact .pure _
  | addSolver solver registerOnly =>
    have hregister : R e (e.registerSolver solver).2 := Reentrant.register solver
    have hdefault : R (e.registerSolver solver).2 (e.addSolver solver).2 :=
      Passing.beside rfl rfl rfl rfl rfl rfl rfl rfl
    refine .get_bind ?_
    cases registerOnly with
    | true => exact fun _ ↦ hregister
    | false => exact fun _ ↦ trans_of R hregister hdefault
  | setDefaultSolvers solvers => exact haside (Passing.beside rfl rfl rfl rfl rfl rfl rfl rfl)
  | setDefaultSolver solver => exact haside (Passing.beside rfl rfl rfl rfl rfl rfl rfl rfl)
  | setWeight s weight => exact (hweight s weight rfl).answered
  | solverByName name => exact .get_bind (.pure _)
  | stats s => exact .solverAt_bind fun _ _ ↦ .pure _
  | capabilities s => exact .solverAt_bind fun _ _ ↦ .pure _
  | inspect predicate context => exact (reads_inspect context predicate).answered
  | dump => exact (Within.lift reads_dump).answered

end Reentrant

/-! ### Storing and passing on -/

section Storing

variable [Storing R]

theorem stays_splitInto (hsuggest : ∀ {e} x v, Within R e (r.suggest x v .propagation false))
    (v : Value) (parts : List (String × VarId)) : Within R e (splitInto r v parts) := by
  refine .forM fun part _ e₁ _ ↦ ?_
  obtain ⟨name, part⟩ := part
  dsimp only
  cases v.part? name with
  | some number => exact (hsuggest _ _).bind fun _ _ _ _ ↦ .pure _
  | none => exact .pure _

theorem stays_updateUnbound (hsuggest : ∀ {e} x v, Within R e (r.suggest x v .propagation false))
    (hrecalculate : ∀ {e} id, Within R e (r.recalculate id)) (x : VarId) (v : Value) :
    Within R e (updateUnbound r x v) := by
  have hsplitting : ∀ (e₁ : Engine) (b : Bool),
      Step.Within R e₁ (Step.modifyGuards fun g => { g with splitting := b }) := fun e₁ b ↦
    Storing.raise e₁.guards.suggesting e₁.guards.storing b
  refine .variableAt_bind fun w _ ↦ (reads_replacesComposite x _ _).bind fun replaces e₁ _ _ ↦ ?_
  cases replaces with
  | true =>
    refine .get_bind ?_
    cases e₁.guards.splitting with
    | true => exact Storing.store x v
    | false =>
      refine .lift_bind (hsplitting e₁ true) fun _ e₂ _ _ ↦ ?_
      refine (stays_splitInto hsuggest v _).attempt.bind fun result e₃ _ _ ↦ ?_
      refine .lift_bind (hsplitting e₃ false) fun _ e₄ _ _ ↦ ?_
      exact (Within.ofExcept result).bind fun _ e₅ _ _ ↦ Storing.store x v
  | false =>
    refine .get_bind ((Storing.store x v).bind fun _ e₂ _ _ ↦ ?_)
    refine Within.bind (.forIn fun id _ _ e₃ _ ↦ ?_) fun _ _ _ _ ↦ .pure _
    exact (hrecalculate id).bind fun _ _ _ _ ↦ .pure _

theorem stays_updateConnected
    (hsuggest : ∀ {e} x v, Within R e (r.suggest x v .propagation false)) (x : VarId) :
    Within R e (updateConnected r x) := by
  refine .variableAt_bind fun w _ ↦ .get_bind ?_
  refine Within.bind (.forIn fun y _ _ e₁ _ ↦ .get_bind ?_) fun _ _ _ _ ↦ .pure _
  split
  · refine .lift_bind (Step.reads_read y) fun v e₂ _ _ ↦ ?_
    exact (hsuggest y v).bind fun _ _ _ _ ↦ .pure _
  · exact .pure _

/-- **Propagating.** The value of a write that failed is put back if a request asked for the write. -/
theorem stays_spread (hsuggest : ∀ {e} x v, Within R e (r.suggest x v .propagation false))
    (hrecalculate : ∀ {e} id, Within R e (r.recalculate id)) {x : VarId} {v old : Value}
    {origin : Origin} (hback : origin = .source → ∀ {e}, Within R e (r.suggest x old .restore true)) :
    Within R e (spread r x v old origin) := by
  have hstoring : ∀ (e₁ : Engine) (f : List VarId → List VarId),
      Step.Within R e₁ (Step.modifyGuards fun g => { g with storing := f g.storing }) := fun e₁ f ↦
    Storing.raise e₁.guards.suggesting (f e₁.guards.storing) e₁.guards.splitting
  refine .get_bind ?_
  split
  · exact .pure _
  refine .lift_bind (hstoring e (· ++ [x])) fun _ e₁ _ _ ↦ ?_
  have hupdate : Within R e₁ (do
      updateDownstream x v
      updateUnbound r x v
      updateConnected r x) := (operating_updateDownstream x v).bind fun _ _ _ _ ↦
    (stays_updateUnbound hsuggest hrecalculate x v).bind fun _ _ _ _ ↦
      stays_updateConnected hsuggest x
  refine hupdate.attempt.bind fun result e₂ _ _ ↦ ?_
  refine .lift_bind (hstoring e₂ (·.erase x)) fun _ e₃ _ _ ↦ ?_
  cases result with
  | ok _ => exact .pure _
  | error err =>
    dsimp only
    split
    · next horigin =>
      have hputBack : Within R e₃ (putBack r x old) := by
        refine (hback horigin).attempt.bind fun result e₄ _ _ ↦ ?_
        cases result with
        | ok _ => exact .pure _
        | error err => exact .get_bind (.lift (Step.operating_report _))
      exact hputBack.bind fun _ _ _ _ ↦ .fail _
    · exact .fail _

/-- An offer, given what is bumped for it. -/
theorem stays_suggestPrimary {v : Value} {origin : Origin} {d : Defining}
    (hbump : ∀ {e}, Step.Within R e (bumpFor x origin d)) :
    Within R e (suggestPrimary x v origin d) := by
  have hsuggesting : ∀ (e₁ : Engine) (f : List VarId → List VarId),
      Step.Within R e₁ (Step.modifyGuards fun g => { g with suggesting := f g.suggesting }) :=
    fun e₁ f ↦ Storing.raise (f e₁.guards.suggesting) e₁.guards.storing e₁.guards.splitting
  refine .get_bind ?_
  split
  · exact .pure _
  refine .lift_bind (hsuggesting e (· ++ [x])) fun _ e₁ _ _ ↦ ?_
  have hoffer : Within R e₁ (offer x v origin d) := .lift_bind hbump fun bumped e₂ _ _ ↦
    (operating_suggestTo d.solver d.handle v).attempt.bind fun _ _ _ _ ↦ .pure _
  refine hoffer.bind fun outcome e₂ _ _ ↦ .lift_bind (hsuggesting e₂ (·.erase x)) fun _ e₃ _ _ ↦ ?_
  exact .lift_bind (Step.operating_reportSolve _ _ _) fun _ _ _ _ ↦ .pure _

theorem stays_unmark (initiating : Option ConstraintId) (result : Except EngineError Unit) :
    Step.Within R e (Written.takeBack ⟨initiating, none, result⟩) := by
  cases initiating with
  | none => exact .pure _
  | some id => exact Step.stays_modifyConstraint fun _ ↦ .bookkeeping

theorem stays_takeBack (hunbump : ∀ {e} s xs, Step.Within R e (Step.unbump s xs)) (w : Written) :
    Step.Within R e w.takeBack := by
  obtain ⟨initiating, _ | b, result⟩ := w
  · exact stays_unmark initiating result
  · exact trans_of R (hunbump b.1 b.2) (stays_unmark initiating result)

/-- **Writing**, given that bumping and taking it back are no matter. -/
theorem stays_write (hr : r.Stays R) (hreevaluate : ∀ {e} id, Within R e (reevaluate r id))
    (hrecalculate : ∀ {e} id, Within R e (r.recalculate id))
    {v : Value} {origin : Origin} {force : Bool}
    (hback : origin = .source → ∀ {e} old, Within R e (r.suggest x old .restore true))
    (hbump : ∀ {e} d, Step.Within R e (bumpFor x origin d))
    (hunbump : ∀ {e} s xs, Step.Within R e (Step.unbump s xs)) :
    Within R e (suggest r x v origin force) := by
  refine stays_suggest fun {old outermost e₀ w e₁} hooks hrunning h₀ hrun ↦ ?_
  have hspread : ∀ {e}, Within R e (spread r x v old origin) :=
    stays_spread hr.suggest hrecalculate fun horigin ↦ hback horigin old
  have habsorbed : Within R e₀ (absorb r x v old origin force outermost) :=
    stays_absorb (fun d ↦ stays_suggestPrimary (hbump d)) fun e' h' initiating ↦
      stays_followUp (fun id ↦ stays_countWrite (hreevaluate id)) hspread
        (fun e₂ h₂ ↦ hr.runHooks hrunning (trans_of R h₀ (trans_of R h' h₂))) initiating
  have hreset : R e₁ { e₁ with pendingHooks := hooks } :=
    Passing.beside rfl rfl rfl rfl rfl rfl rfl rfl
  exact trans_of R (habsorbed.of_ok hrun) (trans_of R hreset (stays_takeBack hunbump w))

/-! ### Writing successfully -/

/-- Where no handler is registered, a failure is not handed over. -/
theorem handOver_ne_ok {err : EngineError}
    (h : ∀ id c, e.constraints.get? id = some c → c.options.onError = none) :
    handOver x err e ≠ (.ok (), e') := by
  intro hrun
  have hnone : ((e.vars.get? x).bind fun v ↦ v.constraints.members.findSome? fun id ↦
      (e.constraints.get? id).bind fun c ↦ c.options.onError) = none := by
    refine Option.eq_none_iff_forall_not_mem.2 fun handler hhandler ↦ ?_
    obtain ⟨v, -, hfind⟩ := Option.bind_eq_some_iff.1 hhandler
    obtain ⟨id, -, hid⟩ := List.exists_of_findSome?_eq_some hfind
    obtain ⟨c, hc, honError⟩ := Option.bind_eq_some_iff.1 hid
    cases (h id c hc).symm.trans honError
  simp only [handOver, get_run, hnone] at hrun
  cases hrun

/-- Where no handler is registered, a write that succeeded concludes a success. -/
theorem of_conclude_ok {v w old : Value} {result : Except EngineError Unit}
    (h : ∀ id c, e.constraints.get? id = some c → c.options.onError = none)
    (hrun : conclude x v old result e = (.ok w, e')) : result = .ok () ∧ e' = e := by
  cases result with
  | ok _ =>
    cases hrun
    exact ⟨rfl, rfl⟩
  | error err =>
    obtain ⟨now, e₁, hread, hrun⟩ := of_bind_ok hrun
    have hrecalls : Recalls e e₁ := (Within.lift (Step.recalls_read x)).of_ok hread
    split at hrun
    · obtain ⟨_, e₂, hhand, -⟩ := of_bind_ok hrun
      exact absurd hhand (handOver_ne_ok fun id c hc ↦ h id c (hrecalls.constraints ▸ hc))
    · cases hrun

/-- An offer that was adopted, and what followed on it. -/
theorem of_absorb_ok {v old : Value} {origin : Origin} {force outermost : Bool} {w : Written}
    (hrun : absorb r x v old origin force outermost e = (.ok w, e')) (hok : w.result = .ok ())
    (hprimary : ∀ {e} d, Within R e (suggestPrimary x v origin d))
    (hfollow : ∀ {e₁ e₂} initiating,
      followUp r x v old origin force outermost initiating e₁ = (.ok (), e₂) → R e₁ e₂) : R e e' := by
  have hrest : ∀ {initiating : Option ConstraintId} {b : Bumped} {e₁ : Engine}, (do
      let result ← attempt (followUp r x v old origin force outermost initiating)
      return (⟨initiating, b, result⟩ : Written) : Call Written) e₁ = (.ok w, e') → R e₁ e' := by
    intro initiating b e₁ hrun
    obtain ⟨result, e₂, hattempt, hlast⟩ := of_bind_ok hrun
    cases hlast
    obtain rfl : result = .ok () := hok
    exact hfollow initiating (of_attempt_ok hattempt)
  obtain ⟨d, e₁, hd, hrun⟩ := of_bind_ok hrun
  obtain ⟨initiating, e₂, hinitiate, hrun⟩ := of_bind_ok hrun
  have h₁ : R e e₁ := (Within.lift (Reads.defining x)).of_ok hd
  have h₂ : R e e₂ := trans_of R h₁ ((Within.lift (Step.stays_initiate d)).of_ok hinitiate)
  cases d with
  | none => exact trans_of R h₂ (hrest hrun)
  | some d =>
    obtain ⟨⟨b, result⟩, e₃, hoffer, hrun⟩ := of_bind_ok hrun
    have h₃ := trans_of R h₂ ((hprimary d).of_ok hoffer)
    cases result with
    | error err =>
      cases hrun
      cases hok
    | ok _ => exact trans_of R h₃ (hrest hrun)

/-- **Writing successfully.** Where no handler is registered, the offer was adopted, and what followed on
it succeeded. -/
theorem of_suggest_ok {v w : Value} {origin : Origin} {force : Bool}
    (hrun : suggest r x v origin force e = (.ok w, e'))
    (hunhandled : ∀ {old outermost e₀ w e₁} hooks, R e e₀ →
      absorb r x v old origin force outermost e₀ = (.ok w, e₁) → ∀ id c,
        (w.takeBack { e₁ with pendingHooks := hooks }).2.constraints.get? id = some c →
          c.options.onError = none)
    (hprimary : ∀ {e} d, Within R e (suggestPrimary x v origin d))
    (hunbump : ∀ {e} s xs, Step.Within R e (Step.unbump s xs))
    (hfollow : ∀ {old outermost e₁ e₂} initiating,
      followUp r x v old origin force outermost initiating e₁ = (.ok (), e₂) → R e₁ e₂) :
    R e e' := by
  unfold suggest at hrun
  rw [get_run] at hrun
  split at hrun
  · cases hrun
    exact refl_of R e
  obtain ⟨old, e₁, hstored, hrun⟩ := of_bind_ok hrun
  have h₁ : R e e₁ := (reads_storedValue x).of_ok hstored
  split at hrun
  · cases hrun
    exact h₁
  rw [get_run] at hrun
  have hhooks : ∀ (hooks : Option (List PendingHook)) (e₂ : Engine),
      R e₂ { e₂ with pendingHooks := hooks } :=
    fun _ _ ↦ Passing.beside rfl rfl rfl rfl rfl rfl rfl rfl
  -- the end of the write, wherever hooks are collected
  have hend : ∀ {outermost e₀ w₀ e₂} hooks, R e₁ e₀ →
      absorb r x v old origin force outermost e₀ = (.ok w₀, e₂) → (do
        w₀.takeBack
        conclude x v old w₀.result : Call Value) { e₂ with pendingHooks := hooks } = (.ok w, e') →
      R e₁ e' := by
    intro outermost e₀ w₀ e₂ hooks h₀ habsorb hrun
    obtain ⟨_, e₃, htaken, hconclude⟩ := of_bind_ok hrun
    cases htaken
    obtain ⟨hok, rfl⟩ := of_conclude_ok (hunhandled hooks (trans_of R h₁ h₀) habsorb) hconclude
    have habsorbed := of_absorb_ok habsorb hok hprimary hfollow
    exact trans_of R h₀ (trans_of R habsorbed (trans_of R (hhooks hooks e₂) (stays_takeBack hunbump w₀)))
  dsimp only at hrun
  refine trans_of R h₁ ?_
  split at hrun
  · obtain ⟨_, e₂, hset, hrun⟩ := of_bind_ok hrun
    cases hset
    obtain ⟨w₀, e₃, habsorb, hrun⟩ := of_bind_ok hrun
    exact hend none (hhooks (some []) e₁) habsorb hrun
  · obtain ⟨w₀, e₂, habsorb, hrun⟩ := of_bind_ok hrun
    exact hend e₂.pendingHooks (refl_of R e₁) habsorb hrun

/-- **Passing a value on.** -/
theorem stays_passOn (hr : r.Stays R) (hreevaluate : ∀ {e} id, Within R e (reevaluate r id))
    (x : VarId) (v : Value) (force : Bool) : Within R e (suggest r x v .propagation force) := by
  refine stays_suggest fun {old outermost e₀ w e₁} hooks hrunning h₀ hrun ↦ ?_
  have habsorbed : Within R e₀ (absorb r x v old .propagation force outermost) := by
    refine stays_absorb (fun d ↦ stays_suggestPrimary ?_) fun e' h' initiating ↦ ?_
    · exact .pure _
    · refine stays_followUp (fun id ↦ stays_countWrite (hreevaluate id)) (hr.spread x v old)
        (fun e₂ h₂ ↦ ?_) initiating
      exact hr.runHooks hrunning (trans_of R h₀ (trans_of R h' h₂))
  have hreset : R e₁ { e₁ with pendingHooks := hooks } :=
    Passing.beside rfl rfl rfl rfl rfl rfl rfl rfl
  refine trans_of R (habsorbed.of_ok hrun) (trans_of R hreset ?_)
  have hbumped := bumped_of_absorb hrun
  obtain ⟨initiating, bumped, result⟩ := w
  obtain rfl : bumped = none := hbumped
  exact stays_unmark initiating result

end Storing

end Call

end LiveConstraints

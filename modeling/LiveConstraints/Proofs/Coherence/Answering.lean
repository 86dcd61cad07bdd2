import LiveConstraints.Proofs.Coherence.Building
import LiveConstraints.Proofs.Quiescence.Answering
import LiveConstraints.Proofs.Reentrant.Writing
/-!
# What is remembered answers for a search

Every operation keeps engines coherent, and so does every request, whatever hooks and handlers do
(`Call.coheres_perform`). So between requests the defining binding that a variable remembers is the one
that a search finds, unless the variable takes part in constraints of which none is on
(`Engine.Driven.answers_for_search`). In that case the two may differ (`Engine.exists_outdated`): a
variable that no constraint holds on to any more may be bound still, and then join a constraint that is
not switched on.
-/

namespace LiveConstraints

open Engine

variable {α β : Type} {e e' : Engine} {x : VarId} {v : Variable} {id source target : ConstraintId}
  {s : SolverId} {r : Reentry} {c : Constraint}

/-! ### Switching, rebuilding and moving -/

namespace Call

theorem freshens_changeConstraint {f : Constraint → Constraint} :
    Within Freshens e (changeConstraint id f) :=
  .constraintAt_bind fun _ _ ↦ .lift (freshens_of_vars (advances_aside rfl rfl (Nat.le_refl _)) rfl)

theorem freshens_modifySolver {f : Solver → Solver} :
    Within Freshens e (Step.modifySolver s f) := .lift Step.freshens_modifySolver

theorem freshens_askSolver {f : Solver → Except SolverError α × Solver} :
    Within Freshens e (askSolver s f) :=
  .of_askSolver fun _ _ ↦ freshens_of_vars advances_solver rfl

theorem freshens_callSolver {f : Solver → α × Solver} : Within Freshens e (callSolver s f) :=
  .of_callSolver fun _ _ ↦ freshens_of_vars advances_solver rfl

/-- What follows a tick has to keep the engine fresh only. -/
theorem Within.ticked {m : Call α} {k : α → Call β} (hm : Within Ticks e m)
    (hk : ∀ a e', Within Freshens e' (k a)) : Within Ticks e (m >>= k) :=
  hm.seq (fun _ h ↦ h) (fun a e' _ _ ↦ hk a e') fun _ _ hticks hfreshens ↦ hfreshens ∘ hticks

/-- A step that a tick follows on has to keep the engine timely only. -/
theorem Within.settled {m : Step α} {k : α → Call β} (hm : m.Within Advances e)
    (hk : ∀ a e', Within Coheres e' (k a)) : Within Coheres e (do
      let a ← m
      Step.tick
      k a) := by
  refine fun hne hc ↦ (?_ : Within (fun _ ↦ Coherent) e _) hne
  refine .ok_bind (lift_run m e) (.ok_bind (lift_run Step.tick _) fun hne' ↦ hk _ _ hne' ?_)
  exact (Step.ticks_tick (hm.timely hc.toTimely)).coherent

theorem freshens_activate (id : ConstraintId) (c : Constraint) :
    Within Freshens e (activate id c) := by
  refine Within.bind (.forIn fun p _ _ e₁ _ ↦ ?_) fun _ e₁ _ _ ↦ ?_
  · exact freshens_askSolver.bind fun _ _ _ _ ↦ .pure _
  · refine freshens_changeConstraint.bind fun _ e₂ _ _ ↦ ?_
    split
    · exact freshens_askSolver
    · exact .pure _

theorem coheres_switch (id : ConstraintId) (c : Constraint) : Within Coheres e (switch id c) := by
  have hswitch : Within Ticks e (switch id c) :=
    .ticked (.lift Step.ticks_tick) fun _ _ ↦ (freshens_activate id c).attempt
  exact hswitch.mono fun _ ↦ Ticks.coheres

theorem freshens_forsake (s : SolverId) (xs : List VarId) : Within Freshens e (forsake s xs) := by
  refine Within.bind (.forIn fun x _ _ e₁ _ ↦ .get_bind ?_) fun _ _ _ _ ↦ .pure _
  have hdetach : ∀ e₂, Within Freshens e₂ (do
      Step.detachUnused x
      pure (.yield PUnit.unit) : Call (ForInStep PUnit)) := fun e₂ ↦
    .lift_bind (Step.freshens_detachUnused x) fun _ _ _ _ ↦ .pure _
  split
  · exact freshens_callSolver.bind fun _ e₂ _ _ ↦ hdetach e₂
  · exact hdetach e₁

theorem ticks_dismantle (hc : e.constraints.get? id = some c) (henabled : c.enabled = true) :
    Within Ticks e (dismantle id c) := by
  refine .ticked (.lift (Step.ticks_disable hc henabled)) fun _ e₁ ↦ ?_
  refine freshens_changeConstraint.bind fun _ e₂ _ _ ↦ ?_
  refine Within.bind (.forIn fun p _ _ e₃ _ ↦ ?_) fun _ e₃ _ _ ↦ ?_
  · exact freshens_modifySolver.bind fun _ _ _ _ ↦ .pure _
  refine Within.bind (.forIn fun x _ _ e₄ _ ↦ ?_) fun _ e₄ _ _ ↦ freshens_changeConstraint
  exact .lift_bind (Step.freshens_modifyVariable fun _ ↦ .of_bindings rfl rfl rfl rfl rfl)
    fun _ _ _ _ ↦ .pure _

/-- **Rebuilding** starts with switching the constraint off. -/
theorem coheres_reroute (hc : e.constraints.get? id = some c) (henabled : c.enabled = true) :
    Within Coheres e (reroute id c) := by
  have hreroute : Within Ticks e (reroute id c) := by
    refine .ticked (ticks_dismantle hc henabled) fun _ e₁ ↦ ?_
    refine ((rebuilds_realize id).mono fun _ ↦ Rebuilds.freshens).bind fun _ e₂ _ _ ↦ ?_
    refine .constraintAt_bind fun _ _ ↦ ?_
    exact (freshens_forsake _ _).bind fun _ _ _ _ ↦ .pure _
  exact hreroute.mono fun _ ↦ Ticks.coheres

/-- What comes before a tick has to keep the engine timely only, if it does not fail. -/
theorem Within.advance {m : Call α} {k : α → Call β} {a : α} (hm : Within Advances e m)
    (hrun : m e = (.ok a, e')) (hk : Within Ticks e' (k a)) : Within Ticks e (m >>= k) := by
  rw [Within, bind_of_ok hrun]
  exact fun hne ↦ hk hne ∘ (hm.of_ok hrun).timely

theorem freshens_detachAll (xs : List VarId) : Within Freshens e (forIn xs PUnit.unit fun x _ ↦ do
    Step.detachUnused x
    pure (.yield PUnit.unit)) :=
  .forIn fun x _ _ _ _ ↦ .lift_bind (Step.freshens_detachUnused x) fun _ _ _ _ ↦ .pure _

/-- **Moving a realization** ends with a tick, up to letting go of variables. -/
theorem coheres_transplantInto (hne : source ≠ target) :
    Within Coheres e (transplantInto source target) := by
  refine .constraintAt_bind fun old hold ↦ ?_
  have hremoved : Within Coheres e (forIn old.primitives PUnit.unit fun p _ ↦ do
      Step.modifySolver old.solver fun s => s.removePrimitive p
      pure (.yield PUnit.unit)) := by
    refine .forIn fun p _ _ e₁ _ ↦ .lift_bind (Undisturbed.coheres (undisturbed_solver ?_))
      fun _ _ _ _ ↦ .pure _
    exact fun _ _ ↦ (Solver.sameFlags_removePrimitive p).weight
  refine hremoved.bind fun _ e₁ hrun _ ↦ .constraintAt_bind fun winner _ ↦ ?_
  -- the target is still there, so nothing fails up to the tick
  obtain ⟨c₁, hc₁, -⟩ := (sameShape_modifyAll _ _ _ |>.of_ok hrun : SameShape e e₁).constraint_after hold
  let e₂ : Engine := { e₁ with constraints := e₁.constraints.remove source }
  obtain ⟨e₃, hjoin, hjoins⟩ := joinAll_run (e := e₂) hne winner.vars
  obtain ⟨e₄, hleave, hleaves⟩ := leaveSome_run (e := e₃) old.vars winner.vars target
  have hc₄ : e₄.constraints.get? target = some c₁ := by
    rw [hleaves.constraints, hjoins.constraints, Arena.get?_remove, if_neg hne.symm, hc₁]
  refine Within.mono (?_ : Within Ticks e₁ _) fun _ ↦ Ticks.coheres
  refine .advance (fun _ ↦ Managing.retire source) rfl ?_
  refine .advance (ordinary_joinAll source target winner.vars) hjoin ?_
  refine .advance (ordinary_leaveSome old.vars winner.vars target) hleave ?_
  refine .advance (ordinary_changeConstraint ?_) (changeConstraint_eq hc₄ _) ?_
  · exact fun _ h ↦ h
  refine .ticked (.lift Step.ticks_tick) fun _ e₅ ↦ (freshens_detachAll _).bind fun _ e₆ _ _ ↦ ?_
  exact .get_bind (.lift (freshens_of_vars (advances_aside rfl rfl (Nat.le_refl _)) rfl))

theorem coheres_unconstrainWithin (n : Nat) (obj : ObjectId) (field : String) :
    Within Coheres e (unconstrainWithin n obj field) := by
  induction n generalizing e obj field with
  | zero => exact .pure _
  | succ n ih =>
    unfold unconstrainWithin
    refine .slotAt_bind fun slot _ ↦ ?_
    cases slot with
    | plain v => exact .pure _
    | intercepted x =>
      refine .lift_bind (Step.reads_read x) fun v e₁ _ _ ↦ ?_
      refine Within.bind (.objectAt_bind fun _ _ _ ↦ ?_) fun _ e₂ _ _ ↦ ?_
      · exact coheres_aside rfl rfl rfl rfl
      refine .settled (Step.Within.get_bind (Step.ordinary_dropWithin _ x)) fun _ e₃ ↦ ?_
      split
      · refine (within_fieldNames _).bind fun names e₅ _ _ ↦ ?_
        refine Within.bind (.forIn fun name _ _ e₆ _ ↦ .get_bind ?_) fun _ _ _ _ ↦ .pure _
        split
        · exact (ih _ name).bind fun _ _ _ _ ↦ .pure _
        · exact .pure _
      · exact .pure _

theorem coheres_unconstrain (obj : ObjectId) (field : String) :
    Within Coheres e (unconstrain obj field) := .get_bind (coheres_unconstrainWithin _ obj field)

end Call

namespace Engine

instance : Reentrant Coheres where
  beside _ _ vars constraints solvers guards _ _ :=
    coheres_aside vars constraints solvers (by rw [guards])
  current {e e' c} h := trans_of Coheres (undisturbed_current c).coheres
    (trans_of Coheres h (undisturbed_current e.guards.current).coheres)
  annotate _ _ core := (undisturbed_constraint fun c ↦ ⟨(core c).solver, (core c).enabled⟩).coheres
  operate _ _ operates := (undisturbed_solver fun solver h ↦ (operates solver h).weight).coheres
  defer _ := coheres_aside rfl rfl rfl rfl
  recordHook _ _ _ := coheres_aside rfl rfl rfl rfl
  disable := Step.coheres_disable
  abandon := Step.coheres_abandon
  build := Call.coheres_build
  switch {_ id c} _ := Call.coheres_switch id c
  deactivate := Call.coheres_deactivate
  reroute := Call.coheres_reroute
  transplantInto := Call.coheres_transplantInto
  unconstrain := Call.coheres_unconstrain
  furnish h := by
    rw [h.same]
    exact coheres_aside rfl rfl rfl rfl
  register solver := (undisturbed_register solver).coheres

instance : Storing Coheres where
  store _ _ := .lift (Undisturbed.coheres (undisturbed_variable fun _ ↦ ⟨rfl, rfl, rfl⟩))
  raise _ _ _ := coheres_aside rfl rfl rfl rfl

end Engine

/-! ### Weights and pins -/

namespace Step

theorem coheres_setReadonly (h : ExtVar) (on : Bool) :
    Within Coheres e (modifySolver s fun solver => solver.setReadonly h on) :=
  Undisturbed.coheres (undisturbed_solver fun solver _ ↦ solver.weight_setReadonly h on)

theorem coheres_recordPinned (pinned : Option (List (SolverId × ExtVar))) :
    Within Coheres e (modifyVariable x fun v => { v with pinned }) :=
  Undisturbed.coheres (undisturbed_variable fun _ ↦ ⟨rfl, rfl, rfl⟩)

theorem coheres_pinDownstream (x : VarId) : Within Coheres e (pinDownstream x) :=
  within_pinDownstream (fun _ ↦ coheres_setReadonly) coheres_recordPinned

theorem coheres_unpinDownstream (x : VarId) : Within Coheres e (unpinDownstream x) :=
  within_unpinDownstream (fun _ ↦ coheres_setReadonly) coheres_recordPinned

/-- A solver gets another weight, and the generation ticks. -/
theorem coheres_weigh (f : Solver → Solver) {k : Step Unit}
    (hk : ∀ {e}, Within Coheres e k) : Within Coheres e (do
      modifySolver s f
      tick
      k) := by
  have hticks : Within Ticks e (do
      modifySolver s f
      tick) := .advance advances_solver fun _ _ ↦ ticks_tick
  exact trans_of Coheres hticks.coheres hk

theorem coheres_bump (s : SolverId) (xs : List VarId) : Within Coheres e (bump s xs) :=
  .get_bind (coheres_weigh _ (.forM fun x _ _ _ ↦ coheres_pinDownstream x))

theorem coheres_unbump (s : SolverId) (xs : List VarId) : Within Coheres e (unbump s xs) :=
  .get_bind (coheres_weigh _ (.forM fun x _ _ _ ↦ coheres_unpinDownstream x))

theorem coheres_closure (x : VarId) : Within Coheres e (closure x) :=
  within_closure (Undisturbed.coheres (undisturbed_variable fun _ ↦ ⟨rfl, rfl, rfl⟩))

end Step

/-! ### Answering -/

/-- The ways back into the engine keep it coherent. -/
structure Reentry.Cohering (r : Reentry) : Prop where
  suggest : ∀ {e} x v origin force, Call.Within Coheres e (r.suggest x v origin force)
  recalculate : ∀ {e} id, Call.Within Coheres e (r.recalculate id)
  act : ∀ {e} requests, Call.Within Coheres e (r.act requests)
  unfailing : ∀ requests, Call.Unfailing (r.act requests)

namespace Call

/-- Guards other than the generation are no matter. -/
theorem coheres_guards {before after : Guards} (h : Coheres { e with guards := before } e')
    (hbefore : before.generation = e.guards.generation)
    (hafter : after.generation = e'.guards.generation) : Coheres e { e' with guards := after } := by
  have hraised : Coheres e { e with guards := before } := coheres_aside rfl rfl rfl hbefore
  have hlowered : Coheres e' { e' with guards := after } := coheres_aside rfl rfl rfl hafter
  exact trans_of Coheres hraised (trans_of Coheres h hlowered)

theorem stays_coheres (hr : r.Cohering) : r.Stays Coheres where
  suggest x v := hr.suggest x v .propagation false
  spread _ _ _ := stays_spread (fun x v ↦ hr.suggest x v .propagation false) hr.recalculate nofun
  runHooks _ _ := stays_runHooks hr.unfailing (fun _ _ requests ↦ hr.act requests)
    fun _ h ↦ coheres_guards h rfl rfl

theorem coheres_suggest (hr : r.Cohering) (x : VarId) (v : Value) (origin : Origin) (force : Bool) :
    Within Coheres e (suggest r x v origin force) := by
  refine stays_write (stays_coheres hr) (stays_reevaluate (stays_coheres hr)) hr.recalculate
    (fun _ _ old ↦ hr.suggest x old .restore true) (fun d ↦ ?_) Step.coheres_unbump
  unfold bumpFor
  split
  · exact .pure _
  · exact (Step.coheres_closure x).bind fun closure _ _ _ ↦
      (Step.coheres_bump d.solver closure).bind fun _ _ _ _ ↦ .pure _

theorem coheres_settle (hr : r.Cohering) : Within Coheres e (settle r) :=
  stays_settle (fun _ ↦ coheres_aside rfl rfl rfl rfl)
    (stays_takeDeferred fun _ ↦ coheres_aside rfl rfl rfl rfl) fun handler _ ↦
      .lift_bind (coheres_aside rfl rfl rfl rfl) fun _ _ _ _ ↦ hr.act handler.actions

theorem coheres_topLevel (hr : r.Cohering) {call : Call α} (hcall : ∀ {e}, Within Coheres e call) :
    Within Coheres e (topLevel r call) :=
  stays_topLevel (fun h ↦ coheres_guards h rfl rfl) hcall (coheres_settle hr)

theorem coheres_setReadonly (obj : ObjectId) (field : String) (on : Bool) :
    Within Coheres e (setReadonly obj field on) := by
  refine within_setReadonly (fun {e₁ s solver} h on hsolver ↦ ?_) obj field on
  refine (undisturbed_solver fun other hother ↦ ?_).coheres
  rw [Option.some.inj (hother.symm.trans hsolver)]
  exact solver.weight_setReadonly h on

theorem coheres_setWeight (s : SolverId) (weight : Float) :
    Within Coheres e (setWeight s weight) := by
  have hrun := callSolver_eq s (fun solver ↦ ((), solver.setWeight weight)) e
  cases hsolver : e.solvers.get? s with
  | none =>
    rw [hsolver] at hrun
    rw [Within, show setWeight s weight e = _ from bind_of_error hrun]
    exact fun _ ↦ refl_of Coheres e
  | some solver =>
    rw [hsolver] at hrun
    refine Within.mono (?_ : Within Ticks e (setWeight s weight)) fun _ ↦ Ticks.coheres
    exact .advance (.of_callSolver fun _ _ ↦ advances_solver) hrun (.lift Step.ticks_tick)

/-- **Answering.** Every request keeps engines coherent. -/
theorem coheres_perform (hr : r.Cohering) (request : Request) :
    Within Coheres e (perform r request) :=
  stays_perform (stays_coheres hr)
    (fun x v ↦ coheres_topLevel hr (coheres_suggest hr x v .source false))
    (fun hcall ↦ coheres_topLevel hr hcall) (fun obj field on _ ↦ coheres_setReadonly obj field on)
    fun s weight _ ↦ coheres_setWeight s weight

/-- A request of a hook or handler is recorded. -/
theorem coheres_made {request : Request} {outcome : Except EngineError Answer} (hr : r.Cohering)
    (hrun : attempt (perform r request) e = (.ok outcome, e')) :
    Coheres e { e' with journal := e'.journal.push (.made request outcome) } := by
  have hmade : Coheres e e' := (coheres_perform hr request).attempt.of_ok hrun
  have hrecorded : Coheres e' { e' with journal := e'.journal.push (.made request outcome) } :=
    coheres_aside rfl rfl rfl rfl
  exact trans_of Coheres hmade hrecorded

end Call

/-- Whatever hooks and handlers do, the ways back into the engine keep it coherent. -/
theorem Reentry.cohering_reacting (program : Program) (n : Nat) : (reacting program n).Cohering := by
  induction n with
  | zero =>
    exact {
      suggest := fun _ _ _ _ ↦ .tooDeep
      recalculate := fun _ ↦ .tooDeep
      act := fun _ ↦ .tooDeep
      unfailing := fun _ ↦ .tooDeep }
  | succ n ih =>
    exact {
      suggest := fun x v origin force ↦ Call.coheres_suggest ih x v origin force
      recalculate := fun id ↦ Call.stays_recalculate (Call.stays_coheres ih) Reentrant.reroute
      act := fun {e} requests ↦ Call.stays_follow (Call.coheres_made ih) (program requests e)
      unfailing := fun requests e ↦ Call.unfailing_follow _ (program requests e) e }

namespace Engine

variable {config : Setup}

theorem coherent_new (config : Setup) : (new config).Coherent :=
  ⟨⟨fun h ↦ (nomatch h), fun h ↦ (nomatch h)⟩, fun h ↦ (nomatch h)⟩

/-- **What counts is credible** between requests. -/
theorem Driven.coherent (h : Driven config e) : e.Coherent := by
  induction h with
  | new => exact coherent_new config
  | answer _ returns ih => exact Call.coheres_perform (Reentry.cohering_reacting _ _) _ returns ih

/-- **What is remembered answers for a search.** Whether the defining binding of a variable is
remembered or not, between requests it is the one that a search finds, if the variable takes part in no
constraint or in one that is on; and the variable is marked as one of several solvers exactly if several
have an enabled constraint on it. What is remembered is assumed not to be so old that its generation came
round. -/
theorem Driven.answers_for_search (h : Driven config e) (hv : e.vars.get? x = some v)
    (hrecent : e.Recent v) :
    (v.constraints.isEmpty = true ∨ (∃ s, (e.enabledConstraint? v s).isSome = true) →
      (Step.defining x e).1 = e.searchDefining v) ∧
    ∃ w, (Step.defining x e).2.vars.get? x = some w ∧
      w.multiSolver = decide (1 < e.constrainingSolvers v) := by
  have hcurrent : e.guards.current = none := by rw [h.atRest.guards]
  obtain ⟨hfound, hmulti⟩ := h.coherent.defining hcurrent hv hrecent
  refine ⟨fun hwhen ↦ ?_, hmulti⟩
  obtain hsearch | ⟨hnone, hsearch⟩ := hfound
  · exact hsearch
  · obtain hempty | ⟨s, hs⟩ := hwhen
    · rw [hsearch, searchDefining_unconstrained hempty]
    · rw [hnone s] at hs
      cases hs

/-- A field that a solver keeps above a bound, and a look at what defines it. -/
def kept : List Request := [
  .addSolver (.relaxation 1000 1e-9) false,
  .createObject [("x", .number 5)],
  .always (.binary .ge (Expr.fieldOf 0 "x") (.const (.number 1))) { solver := some ⟨0⟩ },
  .defining ⟨0⟩ "x"]

/-- The solver of a constraint that is on is found, and remembered. -/
theorem answers_for_search_kept : ∃ v, ((new {}).run kept).vars.get? ⟨0⟩ = some v ∧
    v.definingMemo.isSome = true ∧
    (Step.defining ⟨0⟩ ((new {}).run kept)).1 = ((new {}).run kept).searchDefining v := by
  have hmemo : (((new {}).run kept).vars.get? ⟨0⟩).map (fun v => v.definingMemo.isSome) = some true := by
    decide +kernel
  obtain ⟨v, hv, hremembered⟩ := Option.map_eq_some_iff.1 hmemo
  have hon : ((((new {}).run kept).vars.get? ⟨0⟩).map
      fun v ↦ (((new {}).run kept).enabledConstraint? v ⟨0⟩).isSome) = some true := by decide +kernel
  rw [hv, Option.map_some, Option.some.injEq] at hon
  have hdriven : Driven {} ((new {}).run kept) := .run .new (by decide +kernel)
  have hrecent : ((new {}).run kept).Recent v := recent_of_lt (by decide +kernel)
  exact ⟨v, hv, hremembered, (hdriven.answers_for_search hv hrecent).1 (.inr ⟨⟨0⟩, hon⟩)⟩

/-- A field is let go of by a constraint that could not be rebuilt; then the defining solver is looked
for, and then the field joins a constraint that is off. -/
def outdated : List Request := [
  .addSolver (.relaxation 1000 1e-9) false,
  .createObject [("v", .number 5)],
  .createObject [("w", .number 5)],
  .createObject [("p", .object ⟨0⟩)],
  .always (.binary .ge (.member (Expr.fieldOf 2 "p") "v") (.const (.number 1))) { solver := some ⟨0⟩ },
  .write ⟨2⟩ "p" (.object ⟨1⟩),
  .defining ⟨0⟩ "v",
  .always (.binary .ge (Expr.fieldOf 0 "v") (.const (.number 0)))
    { solver := some ⟨0⟩, postpone := true }]

/-- A variable that joined its first constraint, which is off, is still said to be defined. -/
theorem exists_outdated : Driven {} ((new {}).run outdated) ∧
    ∃ v, ((new {}).run outdated).vars.get? ⟨1⟩ = some v ∧
      (Step.defining ⟨1⟩ ((new {}).run outdated)).1 ≠ ((new {}).run outdated).searchDefining v := by
  have hdiffers : (((new {}).run outdated).vars.get? ⟨1⟩).map (fun v => decide
      ((Step.defining ⟨1⟩ ((new {}).run outdated)).1 = ((new {}).run outdated).searchDefining v))
        = some false := by decide +kernel
  obtain ⟨v, hv, hne⟩ := Option.map_eq_some_iff.1 hdiffers
  exact ⟨.run .new (by decide +kernel), v, hv, of_decide_eq_false hne⟩

end Engine

end LiveConstraints

import LiveConstraints.Proofs.Convergence
import LiveConstraints.Proofs.Memos
import LiveConstraints.Proofs.Quiescence.Watching
import LiveConstraints.Proofs.Reentrant.Writing
/-!
# Weights are taken back

A write from outside makes the defining solver heavier and takes that back in the end. In between it
may put a value back, which makes a solver heavier once more, and lead to any operations that make
none heavier. What is taken back is not the weight that the solver had but the amount that was added,
and weights are floating-point numbers. A weight *bears* an amount if adding it and taking it away
leaves the weight as it was (`Float.Bears`).

A computation balances the weights of a kind if it leaves them as they are, unless a hook or handler
asked for another weight (`Engine.Balances`). What the engine passes on balances all weights, since
it makes no solver heavier; putting a value back balances those that bear the amount; and a write
from outside balances those that bear it twice (`Reentry.Balancing`). While hooks run writes have no
effect, so all weights are balanced. So a solver whose weight bears the amount twice has that weight
again after every request but one to set it, whether or not the request succeeds
(`Engine.weight?_perform`). A small weight does not bear a large amount, and a write that nothing is
wrong with changes it for good (`Engine.exists_weight_lost`).
-/

/-- Adding an amount to a weight and taking it away again leaves the weight as it was. -/
def Float.Bears (weight amount : Float) : Prop := weight + amount - amount = weight

/-- The same twice over: the weight bears the amount, and so does the sum of both. -/
def Float.BearsTwice (weight amount : Float) : Prop :=
  weight.Bears amount ∧ (weight + amount).Bears amount

namespace LiveConstraints

open Engine

variable {α : Type} {A A' : Float → Float → Prop} {e e' : Engine} {r : Reentry} {x : VarId}
  {s t : SolverId} {w : Float}

/-- The request sets the weight of a solver. -/
def Request.setsWeight : Request → Bool
  | .setWeight .. => true
  | _ => false

/-- A hook or handler set the weight of a solver. -/
def JournalEntry.setsWeight : JournalEntry → Bool
  | .made request _ => request.setsWeight
  | _ => false

namespace Engine

/-- How often hooks and handlers set weights. -/
def weightsSet (e : Engine) : Nat := e.journal.countP JournalEntry.setsWeight

theorem weightsSet_push (entry : JournalEntry) :
    weightsSet { e with journal := e.journal.push entry }
      = e.weightsSet + if entry.setsWeight then 1 else 0 := Array.countP_push

/-- What does not depend on which weights are looked at: entries are only added to the journal, and
the configuration and whether hooks are running stay. -/
structure Continues (e e' : Engine) : Prop where
  journal : e.journal.toList <+: e'.journal.toList
  config : e'.config = e.config
  runningHooks : e'.guards.runningHooks = e.guards.runningHooks

instance : IsPreorder Engine Continues where
  refl _ := ⟨List.prefix_refl _, rfl, rfl⟩
  trans _ _ _ h h' := ⟨h.journal.trans h'.journal, h'.config.trans h.config,
    h'.runningHooks.trans h.runningHooks⟩

theorem Continues.weightsSet_le (h : Continues e e') : e.weightsSet ≤ e'.weightsSet := by
  rw [weightsSet, weightsSet, ← Array.countP_toList, ← Array.countP_toList]
  exact h.journal.sublist.countP_le

/-- A solver is counted heavier by the amount of a write that bears on it. -/
def loaded (s : Option SolverId) (t : SolverId) (weight amount : Float) : Float :=
  if s = some t then weight + amount else weight

@[simp]
theorem loaded_none (weight amount : Float) : loaded none t weight amount = weight := rfl

/-- Weights of a kind are as before, but that one solver is heavier: unless hooks or handlers set
weights, and of any kind while hooks are running. -/
structure Loads (A : Float → Float → Prop) (s : Option SolverId) (e e' : Engine) : Prop
    extends Continues e e' where
  weight? : e'.weightsSet = e.weightsSet → ∀ {t w},
    e.guards.runningHooks = true ∨ A w e.config.weightBump → e.weight? t = some w →
      e'.weight? t = some (loaded s t w e.config.weightBump)

/-- Weights of a kind are as before. -/
abbrev Balances (A : Float → Float → Prop) : Engine → Engine → Prop := Loads A none

/-- Every weight is as before. -/
abbrev Even : Engine → Engine → Prop := Balances fun _ _ ↦ True

/-- What a relation says when nothing was set between two computations, it says of both. -/
theorem Loads.trans {s s' s'' : Option SolverId} {e'' : Engine} (h : Loads A s e e')
    (h' : Loads A' s' e' e'')
    (hkind : ∀ t w, A w e.config.weightBump →
      A' (loaded s t w e.config.weightBump) e.config.weightBump)
    (hsum : ∀ t w, loaded s' t (loaded s t w e.config.weightBump) e.config.weightBump
      = loaded s'' t w e.config.weightBump) : Loads A s'' e e'' := by
  refine ⟨trans_of Continues h.toContinues h'.toContinues, fun hset {t w} hw heq ↦ ?_⟩
  have hle := h.weightsSet_le
  have hle' := h'.weightsSet_le
  have hfirst := h.weight? (by omega) hw heq
  have hsecond := h'.weight? (by omega) (t := t) (hw.imp (h.runningHooks.trans ·) fun hA ↦ by
    rw [h.config]
    exact hkind t w hA) hfirst
  rw [hsecond, h.config, hsum]

instance : IsPreorder Engine (Balances A) where
  refl _ := ⟨refl_of Continues _, fun _ _ _ _ h ↦ h⟩
  trans _ _ _ h h' := h.trans h' (fun _ _ hA ↦ hA) fun _ _ ↦ rfl

/-- Who balances more weights balances fewer. -/
theorem Balances.mono (h : Balances A' e e') (hA : ∀ w b, A w b → A' w b) : Balances A e e' :=
  ⟨h.toContinues, fun hset _ _ hw ↦ h.weight? hset (hw.imp_right (hA _ _))⟩

/-- While hooks are running, every weight is balanced. -/
theorem Balances.even (h : Balances A e e') (hrunning : e.guards.runningHooks = true) : Even e e' :=
  ⟨h.toContinues, fun hset _ _ _ ↦ h.weight? hset (.inl hrunning)⟩

/-- Solvers are as heavy as before, and nothing is recorded. -/
theorem balances_of_weight? (weights : ∀ t w, e.weight? t = some w → e'.weight? t = some w)
    (config : e'.config = e.config) (running : e'.guards.runningHooks = e.guards.runningHooks)
    (journal : e'.journal = e.journal) : Balances A e e' :=
  ⟨⟨journal ▸ List.prefix_refl _, config, running⟩, fun _ _ _ _ h ↦ weights _ _ h⟩

theorem balances_of_solvers (solvers : e'.solvers = e.solvers) (config : e'.config = e.config)
    (running : e'.guards.runningHooks = e.guards.runningHooks) (journal : e'.journal = e.journal) :
    Balances A e e' :=
  balances_of_weight? (fun t w h ↦ by rwa [Engine.weight?, solvers]) config running journal

theorem Recalls.balances (h : Recalls e e') : Balances A e e' :=
  balances_of_solvers h.solvers (by rw [h.same]) (by rw [h.guards]) (by rw [h.same])

instance : Managing (Balances A) where
  aside config _ _ solvers guards _ _ _ journal :=
    balances_of_solvers solvers config (by rw [guards]) journal
  finds h := h.balances
  current h := ⟨⟨h.journal, h.config, h.runningHooks⟩, h.weight?⟩
  retouch _ _ _ := balances_of_solvers rfl rfl rfl rfl
  allocate _ := balances_of_solvers rfl rfl rfl rfl
  release _ := balances_of_solvers rfl rfl rfl rfl
  adjust _ _ _ := balances_of_solvers rfl rfl rfl rfl
  introduce _ := balances_of_solvers rfl rfl rfl rfl
  retire _ := balances_of_solvers rfl rfl rfl rfl
  confine {e} s f operates := by
    refine balances_of_weight? (fun t w h ↦ ?_) rfl rfl rfl
    dsimp only [Engine.weight?] at h ⊢
    rwa [Arena.map_get?_modify fun solver hsolver ↦ (operates solver hsolver).weight]
  register {e} solver := by
    refine balances_of_weight? (fun t w h ↦ ?_) rfl rfl rfl
    obtain ⟨other, hother, rfl⟩ := Option.map_eq_some_iff.1 h
    rw [Engine.weight?, Arena.get?_insert_of_get? hother, Option.map_some]

/-- An entry is added to the journal. -/
theorem balances_push (entry : JournalEntry) :
    Balances A e { e with journal := e.journal.push entry } :=
  ⟨⟨by simp, rfl, rfl⟩, fun _ _ _ _ h ↦ h⟩

instance : Reentrant (Balances A) :=
  .of_ordinary (fun config _ _ solvers guards _ journal ↦
      balances_of_solvers solvers config (by rw [guards]) journal)
    (fun _ ↦ balances_of_solvers rfl rfl rfl rfl) (fun _ ↦ balances_of_solvers rfl rfl rfl rfl)
    fun _ _ _ ↦ balances_push _

instance : Storing (Balances A) where
  store _ _ _ := balances_of_solvers rfl rfl rfl rfl
  raise _ _ _ := balances_of_solvers rfl rfl rfl rfl

end Engine

/-! ### Bumping -/

namespace Step

theorem even_setReadonly (h : ExtVar) (on : Bool) :
    Within (Balances A) e (modifySolver s fun solver => solver.setReadonly h on) := by
  have hweight := Arena.map_get?_modify (a := e.solvers) (i := s) (g := Solver.weight)
    fun solver _ ↦ solver.weight_setReadonly h on
  exact balances_of_weight? (fun t w heq ↦ (hweight t).trans heq) rfl rfl rfl

theorem even_recordPinned (x : VarId) (pinned : Option (List (SolverId × ExtVar))) :
    Within (Balances A) e (modifyVariable x fun v => { v with pinned }) :=
  balances_of_solvers rfl rfl rfl rfl

theorem even_pinDownstream (x : VarId) : Within (Balances A) e (pinDownstream x) :=
  within_pinDownstream (fun _ ↦ even_setReadonly) (even_recordPinned x)

theorem even_unpinDownstream (x : VarId) : Within (Balances A) e (unpinDownstream x) :=
  within_unpinDownstream (fun _ ↦ even_setReadonly) (even_recordPinned x)

theorem loads_bump (s : SolverId) (xs : List VarId) : Within (Loads A (some s)) e (bump s xs) := by
  have hheavier : Loads A (some s) e { e with
      solvers := e.solvers.modify s fun solver => solver.setWeight (solver.weight + e.config.weightBump) } := by
    refine ⟨⟨List.prefix_refl _, rfl, rfl⟩, fun _ t w _ heq ↦ ?_⟩
    rw [weight?_weigh e s t (· + e.config.weightBump), heq, loaded]
    by_cases ht : t = s
    · rw [if_pos ht, if_pos (congrArg some ht.symm), Option.map_some]
    · rw [if_neg ht, if_neg fun heq ↦ ht (Option.some.inj heq).symm]
  have hrest : ∀ e₁, Within Even e₁ (do
      tick
      xs.forM pinDownstream) := fun _ ↦
    ordinary_tick.bind fun _ _ _ _ ↦ .forM fun x _ _ _ ↦ even_pinDownstream x
  exact hheavier.trans (hrest _) (fun _ _ _ ↦ trivial) fun _ _ ↦ rfl

/-- What a bump added is taken away. -/
theorem balances_unbump {e₀ : Engine} (h : Loads A (some s) e₀ e) (xs : List VarId)
    (hbears : ∀ w b, A w b → w.Bears b) (hrunning : e₀.guards.runningHooks = false) :
    Balances A e₀ (unbump s xs e).2 := by
  have hlighter : Balances A e₀ { e with
      solvers := e.solvers.modify s fun solver => solver.setWeight (solver.weight - e.config.weightBump) } := by
    refine ⟨⟨h.journal, h.config, h.runningHooks⟩, fun hset {t w} hw heq ↦ ?_⟩
    have hA : A w e₀.config.weightBump := hw.resolve_left (by rw [hrunning]; exact Bool.false_ne_true)
    rw [weight?_weigh e s t (· - e.config.weightBump), h.weight? hset hw heq, loaded, h.config]
    by_cases ht : t = s
    · rw [if_pos ht, if_pos (congrArg some ht.symm), Option.map_some]
      exact congrArg some (hbears w _ hA)
    · rw [if_neg ht, if_neg fun heq ↦ ht (Option.some.inj heq).symm, loaded_none]
  have hrest : ∀ e₁, Within (Balances A) e₁ (do
      tick
      xs.forM unpinDownstream) := fun _ ↦
    ordinary_tick.bind fun _ _ _ _ ↦ .forM fun x _ _ _ ↦ even_unpinDownstream x
  exact trans_of (Balances A) hlighter (hrest _)

end Step

/-! ### Writing -/

/-- The ways back into the engine balance weights, the more the less they may bump. -/
structure Reentry.Balancing (r : Reentry) : Prop where
  suggest : ∀ {e} x v, Call.Within Even e (r.suggest x v .propagation false)
  restore : ∀ {e} x v, Call.Within (Balances Float.Bears) e (r.suggest x v .restore true)
  recalculate : ∀ {e} id, Call.Within Even e (r.recalculate id)
  act : ∀ {e} requests, Call.Within (Balances Float.BearsTwice) e (r.act requests)
  unfailing : ∀ requests, Call.Unfailing (r.act requests)

namespace Call

variable {v old : Value} {origin : Origin} {force outermost : Bool}

/-- Who balances every weight balances those of a kind. -/
theorem Within.balances {m : Call α} (h : Within Even e m) : Within (Balances A) e m :=
  h.mono fun _ heven ↦ heven.mono fun _ _ _ ↦ trivial

/-- While hooks run, nothing bumps. -/
theorem even_runHooks (hr : r.Balancing) (hrunning : e.guards.runningHooks = false) :
    Within Even e (runHooks r) := by
  refine stays_runHooks hr.unfailing (fun _ h₂ requests hne ↦ ?_) fun {e₁ e₂} h₁ h₂ ↦ ?_
  · exact (hr.act requests hne).even h₂.runningHooks
  · have hlowered := h₁.runningHooks.trans hrunning
    exact ⟨⟨h₂.journal, h₂.config, hlowered.symm⟩, fun hset _ _ _ ↦ h₂.weight? hset (.inl rfl)⟩

theorem stays_balances (hr : r.Balancing) : r.Stays (Balances A) where
  suggest x v := (hr.suggest x v).balances
  spread {e} x v old := by
    have heven : Within Even e (spread r x v old .propagation) :=
      stays_spread hr.suggest hr.recalculate nofun
    exact heven.balances
  runHooks hrunning h := (even_runHooks hr (h.runningHooks.trans hrunning)).balances

/-- What is offered bumps at most the defining solver. -/
theorem loads_of_offer {d : Defining} {b : Bumped} {result : Except EngineError Unit}
    (hrun : offer x v origin d e = (.ok (b, result), e')) : Loads A (b.map Prod.fst) e e' := by
  obtain ⟨bumped, e₁, hbump, hrun⟩ := of_bind_ok hrun
  obtain ⟨answer, e₂, hsuggest, hrun⟩ := of_bind_ok hrun
  cases hrun
  have hbumped : Loads A (b.map Prod.fst) e e₁ := by
    rw [lift_run] at hbump
    obtain ⟨hfirst, rfl⟩ := Prod.mk.inj hbump
    rw [← Except.ok.inj hfirst]
    unfold bumpFor
    split
    · exact refl_of (Balances A) e
    · have hclosure : Even e (Step.closure x e).2 := Recalls.balances (Step.recalls_closure x)
      exact (hclosure.mono fun _ _ _ ↦ trivial).trans (A := A)
        (Step.loads_bump d.solver (Step.closure x e).1) (fun _ _ hA ↦ hA) fun _ _ ↦ rfl
  have hsuggested : Even e₁ e' := (operating_suggestTo d.solver d.handle v).attempt.of_ok hsuggest
  exact hbumped.trans hsuggested (fun _ _ _ ↦ trivial) fun _ _ ↦ rfl

theorem loads_of_suggestPrimary {d : Defining} {b : Bumped} {result : Except EngineError Unit}
    (hrun : suggestPrimary x v origin d e = (.ok (b, result), e')) :
    Loads A (b.map Prod.fst) e e' := by
  refine of_suggestPrimary (P := fun b ↦ Loads A (b.map Prod.fst) e) hrun (refl_of (Balances A) e)
    fun e₁ hoffer ↦ ?_
  let lowered : Engine :=
    { e₁ with guards := { e₁.guards with suggesting := e₁.guards.suggesting.erase x } }
  have hraised : Balances A e
      { e with guards := { e.guards with suggesting := e.guards.suggesting ++ [x] } } :=
    balances_of_solvers rfl rfl rfl rfl
  have hoffered := hraised.trans (loads_of_offer (A := A) hoffer) (fun _ _ hA ↦ hA) fun _ _ ↦ rfl
  have hlowered : Even e₁ lowered := balances_of_solvers rfl rfl rfl rfl
  have hreported : Even lowered (Step.reportSolve d.constraint d.solver .write lowered).2 :=
    Step.operating_reportSolve _ _ _
  exact hoffered.trans (trans_of Even hlowered hreported) (fun _ _ _ ↦ trivial) fun _ _ ↦ rfl

/-- A write leaves the solver that it bumped heavier. What follows on the offer has to balance the
weights as they are then. -/
theorem loads_of_absorb {written : Written} (hr : r.Balancing)
    (hkind : ∀ w b, A w b → A' w b ∧ A' (w + b) b)
    (hspread : ∀ {e}, Within (Balances A') e (spread r x v old origin))
    (hrunning : e.guards.runningHooks = false)
    (hrun : absorb r x v old origin force outermost e = (.ok written, e')) :
    Loads A (written.bumped.map Prod.fst) e e' := by
  have hstart : Even e (Step.initiate (Step.defining x e).1 (Step.defining x e).2).2 :=
    trans_of Even (Reads.defining x) (Step.stays_initiate _)
  refine of_absorb (P := Even e) (Q := fun b ↦ Loads A (b.map Prod.fst) e) hrun hstart
    (fun h ↦ h.mono fun _ _ _ ↦ trivial) (fun {d b result e₁ e₂} h hprimary ↦ ?_)
    fun {b e₁} initiating h hne ↦ ?_
  · have hbefore : Balances A e e₁ := h.mono fun _ _ _ ↦ trivial
    exact hbefore.trans (loads_of_suggestPrimary hprimary) (fun _ _ hA ↦ hA) fun _ _ ↦ rfl
  · have hstays : r.Stays (Balances A') := stays_balances hr
    have hhooks : ∀ e₂, Balances A' e₁ e₂ → Within (Balances A') e₂ (runHooks r) := fun e₂ h₂ ↦
      (even_runHooks hr (h₂.runningHooks.trans (h.runningHooks.trans hrunning))).balances
    have hfollowed : Within (Balances A') e₁ (followUp r x v old origin force outermost initiating) :=
      stays_followUp (fun id ↦ stays_countWrite (stays_reevaluate hstays id)) hspread hhooks initiating
    refine h.trans (hfollowed hne) (fun t w hA ↦ ?_) fun _ _ ↦ rfl
    rw [loaded]
    split
    · exact (hkind w _ hA).2
    · exact (hkind w _ hA).1

/-- **Writing.** A write balances the weights that bear what it bumps, if propagating the value
balances them as they are meanwhile. -/
theorem balances_suggest (hr : r.Balancing)
    (hkind : ∀ w b, A w b → w.Bears b ∧ A' w b ∧ A' (w + b) b)
    (hspread : ∀ {e} old, Within (Balances A') e (spread r x v old origin)) :
    Within (Balances A) e (suggest r x v origin force) := by
  refine stays_suggest fun {old outermost e₀ written e₁} hooks hrunning h₀ hrun ↦ ?_
  have hrunning₀ := h₀.runningHooks.trans hrunning
  have habsorbed : Loads A (written.bumped.map Prod.fst) e₀ e₁ :=
    loads_of_absorb hr (fun w b h ↦ (hkind w b h).2) (hspread old) hrunning₀ hrun
  have hhooks : Even e₁ { e₁ with pendingHooks := hooks } := balances_of_solvers rfl rfl rfl rfl
  have hended := habsorbed.trans (A := A) hhooks (fun _ _ _ ↦ trivial) fun _ _ ↦ rfl
  obtain ⟨initiating, _ | b, result⟩ := written
  · exact trans_of (Balances A) hended (stays_unmark initiating result)
  · have hunbumped := Step.balances_unbump hended b.2 (fun w b h ↦ (hkind w b h).1) hrunning₀
    exact trans_of (Balances A) hunbumped (stays_unmark initiating result)

/-- Putting a value back bumps once. -/
theorem balances_restore (hr : r.Balancing) :
    Within (Balances Float.Bears) e (suggest r x v .restore force) := by
  have hspread : ∀ {e} old, Within Even e (spread r x v old .restore) :=
    fun _ ↦ stays_spread hr.suggest hr.recalculate nofun
  exact balances_suggest hr (fun _ _ hbears ↦ ⟨hbears, trivial, trivial⟩) hspread

/-- A write from outside bumps, and may lead to a value being put back. -/
theorem balances_source (hr : r.Balancing) :
    Within (Balances Float.BearsTwice) e (suggest r x v .source force) := by
  refine balances_suggest hr (fun _ _ hbears ↦ ⟨hbears.1, hbears.1, hbears.2⟩) fun _ ↦ ?_
  exact stays_spread (fun x v ↦ (hr.suggest x v).balances) (fun id ↦ (hr.recalculate id).balances)
    fun _ ↦ hr.restore _ _

/-! ### Answering -/

theorem balances_settle (hr : r.Balancing) : Within (Balances Float.BearsTwice) e (settle r) :=
  stays_settle (fun _ ↦ balances_of_solvers rfl rfl rfl rfl)
    (stays_takeDeferred fun _ ↦ balances_of_solvers rfl rfl rfl rfl) fun handler _ ↦
      .lift_bind (balances_push _) fun _ _ _ _ ↦ hr.act handler.actions

theorem balances_topLevel (hr : r.Balancing) {call : Call α}
    (hcall : ∀ {e}, Within (Balances Float.BearsTwice) e call) :
    Within (Balances Float.BearsTwice) e (topLevel r call) :=
  stays_topLevel (fun h ↦ ⟨⟨h.journal, h.config, h.runningHooks⟩, h.weight?⟩) hcall
    (balances_settle hr)

theorem balances_setReadonly (obj : ObjectId) (field : String) (on : Bool) :
    Within (Balances A) e (setReadonly obj field on) := by
  refine within_setReadonly (fun {e₁ s solver} h on hsolver ↦ ?_) obj field on
  have hweight := Arena.map_get?_modify (a := e₁.solvers) (i := s)
    (f := fun _ ↦ solver.setReadonly h on) (g := Solver.weight) fun other hother ↦ by
      rw [Option.some.inj (hother.symm.trans hsolver)]
      exact solver.weight_setReadonly h on
  exact balances_of_weight? (fun t w heq ↦ (hweight t).trans heq) rfl rfl rfl

/-- **Answering.** A request that does not set weights balances those that bear a bump twice. -/
theorem balances_perform {request : Request} (hr : r.Balancing) (hset : request.setsWeight = false) :
    Within (Balances Float.BearsTwice) e (perform r request) := by
  refine stays_perform (stays_balances hr)
    (fun x v ↦ balances_topLevel hr (balances_source hr))
    (fun hcall ↦ balances_topLevel hr hcall) (fun obj field on _ ↦ balances_setReadonly obj field on)
    fun s weight heq ↦ ?_
  rw [heq] at hset
  cases hset

/-- Any request only adds to the journal. -/
theorem continues_perform (hr : r.Balancing)
    (request : Request) : Within Continues e (perform r request) := by
  cases hset : request.setsWeight with
  | false => exact (balances_perform hr hset).mono fun _ ↦ Loads.toContinues
  | true =>
    cases request <;> cases hset
    refine Within.bind (Within.bind (.of_callSolver fun _ _ ↦ ⟨List.prefix_refl _, rfl, rfl⟩)
      fun _ _ _ _ ↦ .lift ⟨List.prefix_refl _, rfl, rfl⟩) fun _ _ _ _ ↦ .pure _

/-- A request of a hook or handler that sets a weight is recorded as such. -/
theorem balances_made {request : Request} {outcome : Except EngineError Answer} (hr : r.Balancing)
    (hrun : attempt (perform r request) e = (.ok outcome, e')) :
    Balances Float.BearsTwice e
      { e' with journal := e'.journal.push (.made request outcome) } := by
  cases hset : request.setsWeight with
  | false =>
    exact trans_of (Balances _) ((balances_perform hr hset).attempt.of_ok hrun)
      (balances_push _)
  | true =>
    have hcontinues : Continues e e' := (continues_perform hr request).attempt.of_ok hrun
    have hpushed : Even e' { e' with journal := e'.journal.push (.made request outcome) } :=
      balances_push _
    refine ⟨trans_of Continues hcontinues hpushed.toContinues, fun hsame ↦ ?_⟩
    have hmade : (JournalEntry.made request outcome).setsWeight = true := hset
    have hle := hcontinues.weightsSet_le
    rw [weightsSet_push, hmade, if_pos rfl] at hsame
    omega

end Call

/-- Whatever hooks and handlers do, the ways back into the engine balance weights. -/
theorem Reentry.balancing_reacting (program : Program) (n : Nat) :
    (reacting program n).Balancing := by
  induction n with
  | zero =>
    exact {
      suggest := fun _ _ ↦ .tooDeep
      restore := fun _ _ ↦ .tooDeep
      recalculate := fun _ ↦ .tooDeep
      act := fun _ ↦ .tooDeep
      unfailing := fun _ ↦ .tooDeep }
  | succ n ih =>
    have hstays : (reacting program n).Stays Even := Call.stays_balances ih
    exact {
      suggest := fun x v ↦ Call.stays_passOn hstays (Call.stays_reevaluate hstays) x v false
      restore := fun x v ↦ Call.balances_restore ih
      recalculate := fun id ↦ Call.stays_recalculate hstays Reentrant.reroute
      act := fun {e} requests ↦
        Call.stays_follow (Call.balances_made ih) (program requests e)
      unfailing := fun requests e ↦ Call.unfailing_follow _ (program requests e) e }

namespace Engine

variable {n : Nat} {program : Program} {request : Request}

/-- **Weights are taken back.** A solver whose weight bears the amount of a bump twice has that weight
again after any request but one to set it, whether the request succeeds or fails, and whatever solvers
were selected and values put back in its course, unless a hook or handler set a weight. -/
theorem weight?_perform (hset : request.setsWeight = false)
    (hreturns : (Call.perform (Reentry.reacting program n) request e).1 ≠ .error .tooDeep)
    (hmade : (Call.perform (Reentry.reacting program n) request e).2.weightsSet = e.weightsSet)
    (hweight : e.weight? s = some w) (hbears : w.BearsTwice e.config.weightBump) :
    (Call.perform (Reentry.reacting program n) request e).2.weight? s = some w :=
  (Call.balances_perform (Reentry.balancing_reacting program n) hset hreturns).weight? hmade
    (.inr hbears) hweight

/-- A search solver of some weight keeps a field to two values. -/
def choosing (weight : Float) : List Request := [
  .addSolver { Solver.domainSearch 100 with weight } false,
  .createObject [("x", .number 1)],
  .always (.inDomain (Expr.fieldOf 0 "x") [.number 1, .number 2]) { solver := some ⟨0⟩ }]

/-- The field is written, with hooks and handlers that make the requests they are handed over as. -/
def chosen (v : Value) : Except Halt Answer × Engine :=
  Call.perform (Reentry.reacting (fun requests _ ↦ .ofList requests) 9) (.write ⟨0⟩ "x" v)
    ((new {}).run (choosing 50))

/-- The weight of a search solver is the same after a write, be it one that the solver refuses. -/
theorem weight?_perform_choosing : ((new {}).run (choosing 50)).weight? ⟨0⟩ = some 50 ∧
    (chosen (.number 2)).2.weight? ⟨0⟩ = some 50 ∧ (chosen (.number 5)).2.weight? ⟨0⟩ = some 50 := by
  have hweight : ((new {}).run (choosing 50)).weight? ⟨0⟩ = some 50 := by decide +kernel
  have hbears : Float.BearsTwice 50 ((new {}).run (choosing 50)).config.weightBump :=
    ⟨by unfold Float.Bears; decide +kernel, by unfold Float.Bears; decide +kernel⟩
  have hkept : ∀ v, returned (chosen v).1 = true →
      (chosen v).2.weightsSet = ((new {}).run (choosing 50)).weightsSet →
        (chosen v).2.weight? ⟨0⟩ = some 50 := fun v hreturned hmade ↦
    weight?_perform rfl (ne_tooDeep_of_returned hreturned) hmade hweight hbears
  exact ⟨hweight, hkept _ (by decide +kernel) (by decide +kernel),
    hkept _ (by decide +kernel) (by decide +kernel)⟩

/-- A write that succeeds leaves a light solver with another weight. -/
theorem exists_weight_lost : Reachable {} ((new {}).run (choosing 0.1)) ∧
    ((new {}).run (choosing 0.1)).succeedsAll [.write ⟨0⟩ "x" (.number 2)] = true ∧
    ((new {}).run (choosing 0.1)).weight? ⟨0⟩ = some 0.1 ∧
    (((new {}).run (choosing 0.1)).answer (.write ⟨0⟩ "x" (.number 2))).2.weight? ⟨0⟩ ≠ some 0.1 := by
  have hreachable : Reachable {} ((new {}).run (choosing 0.1)) := by
    refine (Reachable.new rfl).run ?_ (by decide +kernel)
    simp only [choosing, Admissible, List.forall_mem_cons]
    exact ⟨.addSolver rfl, .plain rfl, .unhandled rfl, List.forall_mem_nil _⟩
  exact ⟨hreachable, by decide +kernel, by decide +kernel, by decide +kernel⟩

end Engine

end LiveConstraints

import LiveConstraints.Proofs.Editing.Calm
import LiveConstraints.Proofs.Reentrant.Writing
/-!
# Passing on what is known

In a placid engine a variable is suggested the value that it has: its solver holds that value already
and builds nothing, no other solver has a handle for it, no constraint has to be rebuilt, and its
neighbours are suggested what they have in turn. So the whole cascade succeeds and leaves everything calm
(`Call.calms_suggest`), at whatever depth (`Reentry.passesOn_ofDepth`).
-/

namespace LiveConstraints

open Engine

variable {α β : Type} {e e' : Engine} {r : Reentry} {x : VarId} {v : Variable} {d : Defining}
  {s : SolverId} {h : ExtVar} {xs : List VarId} {Q : α → Prop} {Q' : β → Prop}

namespace Solver

/-- A dataflow solver does nothing for a number that its variable holds already. -/
theorem suggest_held {solver : Solver} {flow : Dataflow} {u : Value}
    (halgorithm : solver.algorithm = .dataflow flow) (hvalue : solver.value h = u)
    (hnumber : u.asNumber?.isSome = true) (hnear : u.near u = true) :
    ((solver.setReadonly h false).suggest h u).1 = .ok () ∧
      ((solver.setReadonly h false).suggest h u).2.setReadonly h (solver.isReadonly h) = solver := by
  obtain ⟨name, innerName, weight, algorithm⟩ := solver
  cases halgorithm
  obtain ⟨number, hnumber⟩ := Option.isSome_iff_exists.1 hnumber
  have hvalue : flow.model.slots.value h = u := hvalue
  obtain ⟨slot, hslot, hheld⟩ : ∃ slot, flow.model.slots.get? h = some slot ∧ slot.value = u := by
    rw [Slots.value] at hvalue
    cases hslot : flow.model.slots.get? h with
    | none =>
      rw [hslot] at hvalue
      rw [← hvalue] at hnumber
      cases hnumber
    | some slot =>
      rw [hslot] at hvalue
      exact ⟨slot, rfl, hvalue⟩
  have hsuggest : (flow.model.setReadonly h false).slots.get? h = some { slot with readonly := false } := by
    show (flow.model.slots.modify h _).get? h = _
    rw [Arena.get?_modify_self, hslot]
    rfl
  have hrun : Dataflow.suggest { flow with model := flow.model.setReadonly h false } h u
      = (.ok (), { flow with model := flow.model.setReadonly h false }) := by
    unfold Dataflow.suggest Dataflow.number?
    rw [hnumber]
    dsimp only
    rw [hsuggest]
    dsimp only
    rw [hheld, if_pos hnear]
  have hback : (flow.model.setReadonly h false).setReadonly h (flow.model.slots.isReadonly h)
      = flow.model := by
    have hslots : (flow.model.slots.modify h fun c ↦ { c with readonly := false }).modify h
        (fun c ↦ { c with readonly := flow.model.slots.isReadonly h }) = flow.model.slots := by
      rw [Arena.modify_modify, Arena.modify_congr hslot (g := fun c ↦ c), Arena.modify_id]
      rw [Slots.isReadonly, hslot]
      rfl
    rw [Model.setReadonly, Model.setReadonly, hslots]
  constructor
  · exact congrArg Prod.fst hrun
  · show setReadonly { name, innerName, weight, algorithm := .dataflow (Dataflow.suggest _ h u).2 } h _ = _
    rw [hrun]
    exact congrArg (fun model ↦ (⟨name, innerName, weight, .dataflow { flow with model }⟩ : Solver)) hback

end Solver

namespace Engine

/-- What is known of a variable of a placid region that a solver speaks for. -/
structure Speaks (e : Engine) (x : VarId) (d : Defining) (v : Variable) (solver : Solver)
    (flow : Dataflow) : Prop where
  live : e.vars.get? x = some v
  handles : v.handles = [(d.solver, d.handle)]
  handle? : v.handle? d.solver = some d.handle
  constraint : d.constraint = e.enabledConstraint? v d.solver
  registered : e.solvers.get? d.solver = some solver
  algorithm : solver.algorithm = .dataflow flow
  value : solver.value d.handle = e.value x

theorem Placid.speaks (hp : e.Placid xs) (hx : x ∈ xs) (hd : e.definition x = some d) :
    ∃ v solver flow, e.Speaks x d v solver flow := by
  obtain ⟨v, hv, hsought⟩ := Option.bind_eq_some_iff.1 hd
  have hsearch : e.searchDefining v = some d := by
    rw [soughtDefining, currentDefining?, hp.outside] at hsought
    exact hsought
  obtain ⟨hmem, hconstraint, -⟩ := of_searchDefining hsearch
  obtain ⟨solver, flow, hsolver, halgorithm⟩ := hp.unshared.dataflow x hx v hv _ hmem
  refine ⟨v, solver, flow, hv, hp.unshared.sole x hx v hv _ hmem,
    Variable.handle?_of_mem (hp.ordered x v hv) hmem, hconstraint, hsolver, halgorithm, ?_⟩
  rw [← hp.read_eq x]
  exact (Step.read_of_defining ((hp.defining_eq x).trans hd) hsolver).symm

/-- A constraint has no candidate but the solver that it has. -/
def Uncontested (e : Engine) (id : ConstraintId) : Prop :=
  ∃ c, e.constraints.get? id = some c ∧
    ∀ t ∈ e.candidates c.options, t = c.solver ∨ e.solvers.get? t = none

theorem Uncontested.calm {id : ConstraintId} (hid : e.Uncontested id) (hc : Calm e e') :
    e'.Uncontested id := by
  obtain ⟨c, hconstraint, hcandidates⟩ := hid
  have hsame := hc.constraints id
  rw [hconstraint, Option.map_some] at hsame
  obtain ⟨c', hconstraint', hcc⟩ := Option.map_eq_some_iff.1 hsame
  refine ⟨c', hconstraint', ?_⟩
  rw [show c'.solver = c.solver from congrArg (·.solver) hcc,
    show c'.options = c.options from congrArg (·.options) hcc, hc.candidates, hc.solvers]
  exact hcandidates

/-- What a variable stores is what it reads as, if no solver speaks for it and it has no parts. -/
theorem Placid.value_of_undefined (hp : e.Placid xs) (hv : e.vars.get? x = some v)
    (hparts : v.parts.isEmpty = true) (hd : e.definition x = none) : e.value x = v.shadow := by
  rw [← hp.read_eq x, Step.read_of_undefined hv hparts fun d hd' ↦ ?_]
  rw [hp.defining_eq, hd] at hd'
  cases hd'

end Engine

namespace Call

/-! ### Calm calls -/

/-- A call succeeds, and leaves a placid engine calm. -/
abbrev Calms (xs : List VarId) (e : Engine) (m : Call α) (Q : α → Prop) : Prop :=
  Succeeds e m fun a e' ↦ Calm e e' ∧ e'.Placid xs ∧ Q a

theorem Calms.pure {a : α} (hp : e.Placid xs) (h : Q a) : Calms xs e (pure a) Q :=
  Yields.pure ⟨a, rfl, refl_of Calm e, hp, h⟩

theorem Calms.bind {m : Call α} {f : α → Call β} (hm : Calms xs e m Q)
    (hf : ∀ a e₁, Calm e e₁ → e₁.Placid xs → Q a → Calms xs e₁ (f a) Q') :
    Calms xs e (m >>= f) Q' := by
  refine Succeeds.bind hm fun a e₁ ⟨hcalm, hp, ha⟩ ↦ (hf a e₁ hcalm hp ha).mono ?_
  rintro _ e₂ ⟨b, rfl, hcalm', hp', hb⟩
  exact ⟨b, rfl, trans_of Calm hcalm hcalm', hp', hb⟩

theorem Calms.lift_bind {m : Step α} {f : α → Call β} (hp : e.Placid xs)
    (hm : Step.Within (Lulls xs) e m)
    (hf : ∀ e₁, Calm e e₁ → e₁.Placid xs → Calms xs e₁ (f (m e).1) Q') :
    Calms xs e (liftM m >>= f) Q' := by
  refine Yields.lift_bind (((hf _ (hm hp).1 (hm hp).2)).mono ?_)
  rintro _ e₂ ⟨b, rfl, hcalm', hp', hb⟩
  exact ⟨b, rfl, trans_of Calm (hm hp).1 hcalm', hp', hb⟩

theorem Calms.modify_bind {g : Engine → Engine} {f : PUnit → Call β} (hp : e.Placid xs)
    (hg : Lulls xs e (g e)) (hf : (g e).Placid xs → Calms xs (g e) (f ⟨⟩) Q') :
    Calms xs e (modify g >>= f) Q' := by
  refine Yields.modify_bind ((hf (hg hp).2).mono ?_)
  rintro _ e₂ ⟨b, rfl, hcalm', hp', hb⟩
  exact ⟨b, rfl, trans_of Calm (hg hp).1 hcalm', hp', hb⟩

theorem Calms.lift {m : Step PUnit} (hp : e.Placid xs) (hm : Step.Within (Lulls xs) e m) :
    Calms xs e (liftM m) fun _ ↦ True :=
  fun _ ↦ ⟨_, rfl, (hm hp).1, (hm hp).2, trivial⟩

theorem Calms.attempt {m : Call α} (hm : Calms xs e m Q) :
    Calms xs e (attempt m) fun result ↦ ∃ a, result = .ok a ∧ Q a :=
  Yields.attempt hm (fun _ _ ⟨a, ha, hcalm, hp, hq⟩ ↦ ⟨hcalm, hp, a, Except.ok.inj ha ▸ rfl, hq⟩)
    fun _ _ ⟨_, ha, _⟩ ↦ nomatch ha

/-- A call that stays calm and does not fail. -/
theorem Calms.of_within {m : Call α} (hp : e.Placid xs) (hm : Within (Lulls xs) e m)
    (hunfailing : Unfailing m) : Calms xs e m fun _ ↦ True :=
  (hm.succeeds hunfailing).mono fun _ _ ⟨a, ha, hlulls⟩ ↦
    ⟨a, ha, (hlulls hp).1, (hlulls hp).2, trivial⟩

theorem Calms.forIn {l : List α} {f : α → PUnit → Call (ForInStep PUnit)} (hp : e.Placid xs)
    (hf : ∀ a ∈ l, ∀ e₁, Calm e e₁ → e₁.Placid xs → Calms xs e₁ (f a ⟨⟩) fun _ ↦ True) :
    Calms xs e (forIn l ⟨⟩ f) fun _ ↦ True := by
  refine (Succeeds.forIn (P := fun _ e₁ ↦ Calm e e₁ ∧ e₁.Placid xs) ⟨refl_of Calm e, hp⟩
    fun a ha _ e₁ ⟨hcalm, hp₁⟩ ↦ (hf a ha e₁ hcalm hp₁).mono ?_).mono ?_
  · rintro _ e₂ ⟨step, rfl, hcalm', hp', -⟩
    exact ⟨step, rfl, trans_of Calm hcalm hcalm', hp'⟩
  · rintro _ e₂ ⟨_, rfl, hcalm', hp'⟩
    exact ⟨_, rfl, hcalm', hp', trivial⟩

/-! ### Steps -/

theorem lulls_report (event : Event) : Step.Within (Lulls xs) e (Step.report event) :=
  lulls_aside rfl rfl (·.pending)

theorem lulls_reportSolve (id : Option ConstraintId) (s : SolverId) (phase : SolvePhase) :
    Step.Within (Lulls xs) e (Step.reportSolve id s phase) := by
  refine .get_bind ?_
  dsimp only
  split
  · exact lulls_report _
  · exact .pure _

theorem lulls_suggesting (f : List VarId → List VarId) : Step.Within (Lulls xs) e
    (Step.modifyGuards fun g ↦ { g with suggesting := f g.suggesting }) :=
  lulls_aside rfl rfl (·.pending)

theorem lulls_storing (f : List VarId → List VarId) : Step.Within (Lulls xs) e
    (Step.modifyGuards fun g ↦ { g with storing := f g.storing }) :=
  lulls_aside rfl rfl (·.pending)

theorem lulls_initiate (defining : Option Defining) :
    Step.Within (Lulls xs) e (Step.initiate defining) := by
  unfold Step.initiate
  split
  · exact .pure _
  · refine .get_bind ?_
    split
    · exact .pure _
    · split
      · exact .pure _
      · exact Step.Within.bind (lulls_annotate _ fun _ ↦ rfl) fun _ _ _ _ ↦ .pure _

/-- What was marked is the constraint that was given, and it exists. -/
theorem of_initiate {id : ConstraintId} (hid : (Step.initiate (some d) e).1 = some id) :
    d.constraint = some id ∧ ∃ c, e.constraints.get? id = some c := by
  unfold Step.initiate at hid
  rw [Option.bind_some] at hid
  cases hconstraint : d.constraint with
  | none =>
    rw [hconstraint] at hid
    cases hid
  | some id' =>
    rw [hconstraint] at hid
    dsimp only at hid
    rw [Step.get_run] at hid
    cases hc : e.constraints.get? id' with
    | none =>
      rw [hc] at hid
      cases hid
    | some c =>
      rw [hc] at hid
      dsimp only at hid
      cases hmark : c.initiating with
      | true =>
        rw [hmark] at hid
        cases hid
      | false =>
        rw [hmark] at hid
        cases hid
        exact ⟨rfl, c, hc⟩

/-- There is no hook to collect. -/
theorem calms_collectHook (hp : e.Placid xs) (x : VarId) :
    Calms xs e (collectHook x) fun _ ↦ True := by
  refine Calms.lift_bind hp (Reads.defining x) fun e₁ _ hp₁ ↦ ?_
  split
  · refine .get_bind ?_
    split
    · next hook hhook =>
      obtain ⟨obj, o, field, ho, hfield⟩ := exists_of_hookOf? hhook
      rw [hp₁.hookless obj o ho field] at hfield
      cases hfield
    · exact Calms.pure hp₁ trivial
    · exact fun hne ↦ absurd rfl hne
  · exact Calms.pure hp₁ trivial

theorem calms_storedValue (hp : e.Placid xs) (hv : e.vars.get? x = some v) :
    Calms xs e (storedValue x) fun u ↦ u = if v.parts.isEmpty then v.shadow else e.value x := by
  refine .lookup_bind (variableAt_eq x e) (fun hnone ↦ nomatch hv.symm.trans hnone) fun w hw ↦ ?_
  obtain rfl : w = v := Option.some.inj (hw.symm.trans hv)
  dsimp only
  split
  · exact Calms.pure hp rfl
  · have hread : Step.Within (Lulls xs) e (Step.read x) := Step.reads_read x
    intro _
    exact ⟨_, rfl, (hread hp).1, (hread hp).2, hp.read_eq x⟩

/-! ### Counting -/

/-- Solvers that do not exist are no candidates. -/
theorem calms_filterCandidates (hp : e.Placid xs) (options : ConstraintOptions) (predicate : Expr)
    {solvers : List SolverId} (hgone : ∀ t ∈ solvers, e.solvers.get? t = none) :
    Calms xs e (filterCandidates options predicate solvers) fun outcome ↦ outcome.1 = [] := by
  refine Calms.bind (Calms.of_within hp (reads_inspectPredicate options.context predicate).attempt
    (unfailing_attempt _)) fun inspection e₁ h₁ hp₁ _ ↦ .get_bind ?_
  dsimp only
  refine Succeeds.bind (Succeeds.forIn (P := fun acc e₂ ↦ Calm e₁ e₂ ∧ e₂.Placid xs ∧ acc.1 = [])
    ⟨refl_of Calm e₁, hp₁, rfl⟩ fun t ht acc e₂ ⟨h₂, hp₂, hacc⟩ ↦ .get_bind ?_) fun acc e₂ h₂ ↦ ?_
  · rw [h₂.solvers, h₁.solvers, hgone t ht]
    exact .pure ⟨_, rfl, h₂, hp₂, hacc⟩
  · exact .pure ⟨_, rfl, h₂⟩

/-- Nothing is selected where there is nothing to select from. -/
theorem calms_reevaluate (hp : e.Placid xs) {id : ConstraintId} (hid : e.Uncontested id) :
    Calms xs e (reevaluate r id) fun _ ↦ True := by
  obtain ⟨c, hc, hcandidates⟩ := hid
  refine .lookup_bind (constraintAt_eq id e) (fun hnone ↦ nomatch hc.symm.trans hnone) fun c' hc' ↦ ?_
  obtain rfl : c' = c := Option.some.inj (hc'.symm.trans hc)
  refine .get_bind (Calms.lift_bind hp (lulls_report _) fun e₁ h₁ hp₁ ↦ ?_)
  refine Calms.bind (calms_filterCandidates hp₁ _ _ fun t ht ↦ ?_) fun filtered e₂ _ hp₂ hnone ↦ ?_
  · obtain ⟨hmem, hne⟩ := List.mem_filter.1 ht
    rw [h₁.solvers]
    exact (hcandidates t hmem).resolve_left (by simpa using hne)
  · obtain ⟨kept, errors⟩ := filtered
    obtain rfl : kept = [] := hnone
    exact Calms.pure hp₂ trivial

theorem calms_countWrite (hp : e.Placid xs) {id : ConstraintId} (hid : e.Uncontested id) :
    Calms xs e (countWrite r id) fun _ ↦ True := by
  have hchange : Calms xs e (changeConstraint id fun c ↦ { c with counter := c.counter + 1 })
      fun _ ↦ True := by
    obtain ⟨c, hc, -⟩ := hid
    have hcalm := lulls_annotate id (f := fun c ↦ { c with counter := c.counter + 1 })
      (fun _ ↦ rfl) hp
    intro _
    rw [changeConstraint_eq hc]
    exact ⟨_, rfl, hcalm.1, hcalm.2, trivial⟩
  refine hchange.bind fun _ e₁ h₁ hp₁ _ ↦ ?_
  obtain ⟨c₁, hc₁, -⟩ := hid.calm h₁
  refine .lookup_bind (constraintAt_eq id e₁) (fun hnone ↦ nomatch hc₁.symm.trans hnone) fun c _ ↦ ?_
  split
  · refine (calms_reevaluate hp₁ (hid.calm h₁)).bind fun _ e₂ _ hp₂ _ ↦ ?_
    exact .lift hp₂ (lulls_annotate _ fun _ ↦ rfl)
  · exact Calms.pure hp₁ trivial

/-! ### Spreading -/

section Spoken

variable (hp : e.Placid xs) (hx : x ∈ xs) (hd : e.definition x = some d)
include hp hx hd

/-- No other solver has a handle. -/
theorem calms_updateDownstream (u : Value) : Calms xs e (updateDownstream x u) fun _ ↦ True := by
  have hhandles : Calms xs e (downstreamHandles x) fun handles ↦ handles = [] := by
    refine .lift_bind hp (Reads.defining x) fun e₁ h₁ hp₁ ↦ ?_
    rw [hp.defining_eq, hd]
    obtain ⟨v, solver, flow, hspeaks⟩ := hp₁.speaks hx (h₁.definition_eq ▸ hd)
    refine .lookup_bind (variableAt_eq x e₁) (fun hnone ↦ nomatch hspeaks.live.symm.trans hnone)
      fun w hw ↦ Calms.pure hp₁ ?_
    obtain rfl : w = v := Option.some.inj (hw.symm.trans hspeaks.live)
    rw [hspeaks.handles]
    simp
  refine hhandles.bind fun handles e₁ _ hp₁ hnone ↦ ?_
  rw [hnone]
  exact Calms.pure hp₁ trivial

/-- The solver has a handle for the variable, so no constraint is rebuilt. -/
theorem calms_updateUnbound (u : Value) : Calms xs e (updateUnbound r x u) fun _ ↦ True := by
  obtain ⟨v, solver, flow, hspeaks⟩ := hp.speaks hx hd
  refine .lookup_bind (variableAt_eq x e) (fun hnone ↦ nomatch hspeaks.live.symm.trans hnone)
    fun w hw ↦ ?_
  obtain rfl : w = v := Option.some.inj (hw.symm.trans hspeaks.live)
  have hreplaces : Calms xs e (replacesComposite x w.shadow u) fun b ↦ b = false := by
    unfold replacesComposite
    split
    · refine .lift_bind hp (Reads.defining x) fun e₁ _ hp₁ ↦ Calms.pure hp₁ ?_
      rw [hp.defining_eq, hd]
      rfl
    · exact Calms.pure hp rfl
  refine hreplaces.bind fun b e₁ h₁ hp₁ hb ↦ ?_
  rw [hb]
  refine .get_bind ?_
  dsimp only
  have hfresh : (w.constraints.members.filter fun id ↦
      (e₁.constraints.get? id).any fun c ↦ (w.handle? c.solver).isNone) = [] := by
    refine List.filter_eq_nil_iff.2 fun id hid hstale ↦ ?_
    obtain ⟨c, hc, hnone⟩ := (Option.any_eq_true ..).1 hstale
    obtain ⟨c₀, hc₀, hcc⟩ := h₁.constraint_before hc
    have hserved := (hp.unshared.served x hx w hspeaks.live (d.solver, d.handle)
      (by rw [hspeaks.handles]; exact List.mem_singleton_self _) id hid c₀ hc₀).1
    rw [show c.solver = c₀.solver from congrArg (·.solver) hcc, hserved, hspeaks.handle?] at hnone
    cases hnone
  rw [hfresh]
  have hstore : Calms xs e₁ (store x u) fun _ ↦ True :=
    .lift (m := Step.modifyVariable x fun w ↦ { w with shadow := u }) hp₁
      (lulls_store (h₁.definition_eq ▸ hd) (by rw [h₁.solvers]; exact hspeaks.registered) u)
  exact hstore.bind fun _ e₂ _ hp₂ _ ↦ Calms.pure hp₂ trivial

end Spoken

end Call

/-- Ways back into the engine by which a variable of a placid region is suggested the value that it has
without anything coming of it. -/
def Reentry.PassesOn (xs : List VarId) (r : Reentry) : Prop :=
  ∀ {e x}, e.Placid xs → x ∈ xs → (∃ v, e.vars.get? x = some v) →
    Call.Calms xs e (r.suggest x (e.value x) .propagation false) fun _ ↦ True

namespace Call

variable (hr : r.PassesOn xs)
include hr

theorem calms_updateConnected (hp : e.Placid xs) (hx : x ∈ xs) (hv : e.vars.get? x = some v) :
    Calms xs e (updateConnected r x) fun _ ↦ True := by
  refine .lookup_bind (variableAt_eq x e) (fun hnone ↦ nomatch hv.symm.trans hnone) fun w hw ↦ ?_
  obtain rfl : w = v := Option.some.inj (hw.symm.trans hv)
  refine .get_bind (Calms.bind (Calms.forIn hp fun y hy e₁ _ hp₁ ↦ .get_bind ?_)
    fun _ e₁ _ hp₁ _ ↦ Calms.pure hp₁ trivial)
  have hy : y ∈ xs := hp.unshared.closed x hx w hv y (List.mem_eraseDups.1 hy)
  split
  · next hcontains =>
    obtain ⟨u, hu⟩ := Arena.contains_iff.1 hcontains
    refine Calms.lift_bind hp₁ (Step.reads_read y) fun e₂ h₂ hp₂ ↦ ?_
    obtain ⟨u', hu', -⟩ := h₂.exists_after hu
    rw [hp₁.read_eq, ← h₂.value_eq]
    exact (hr hp₂ hy ⟨u', hu'⟩).bind fun _ e₃ _ hp₃ _ ↦ Calms.pure hp₃ trivial
  · exact Calms.pure hp₁ trivial

section Spoken

variable (hp : e.Placid xs) (hx : x ∈ xs) (hd : e.definition x = some d)
include hp hx hd

theorem calms_spread (u old : Value) (origin : Origin) :
    Calms xs e (spread r x u old origin) fun _ ↦ True := by
  refine .get_bind ?_
  split
  · exact Calms.pure hp trivial
  refine Calms.lift_bind hp (lulls_storing fun storing ↦ storing ++ [x]) fun e₁ h₁ hp₁ ↦ ?_
  have hd₁ : e₁.definition x = some d := h₁.definition_eq ▸ hd
  have hupdate : Calms xs e₁ (do
      updateDownstream x u
      updateUnbound r x u
      updateConnected r x) fun _ ↦ True := by
    refine (calms_updateDownstream hp₁ hx hd₁ u).bind fun _ e₂ h₂ hp₂ _ ↦ ?_
    refine (calms_updateUnbound hp₂ hx (h₂.definition_eq ▸ hd₁) u).bind fun _ e₃ h₃ hp₃ _ ↦ ?_
    obtain ⟨v, solver, flow, hspeaks⟩ :=
      hp₃.speaks hx (h₃.definition_eq ▸ h₂.definition_eq ▸ hd₁)
    exact calms_updateConnected hr hp₃ hx hspeaks.live
  refine hupdate.attempt.bind fun result e₂ _ hp₂ ⟨_, hok, _⟩ ↦ ?_
  refine Calms.lift_bind hp₂ (lulls_storing fun storing ↦ storing.erase x) fun e₃ _ hp₃ ↦ ?_
  rw [hok]
  exact Calms.pure hp₃ trivial

theorem calms_propagate (u old : Value) (origin : Origin) (force : Bool) :
    Calms xs e (propagate r x u old origin force) fun _ ↦ True := by
  unfold propagate
  split
  · obtain ⟨v, solver, flow, hspeaks⟩ := hp.speaks hx hd
    refine (calms_storedValue hp hspeaks.live).bind fun stored e₁ h₁ hp₁ _ ↦ ?_
    split
    · exact Calms.pure hp₁ trivial
    · exact calms_spread hr hp₁ hx (h₁.definition_eq ▸ hd) u old origin
  · exact calms_spread hr hp hx hd u old origin

omit hr hx hd in
/-- No hook was collected. -/
theorem calms_runHooks : Calms xs e (runHooks r) fun _ ↦ True := by
  have hhooks : e.pendingHooks.getD [] = [] := by
    cases hpending : e.pendingHooks with
    | none => rfl
    | some hooks => exact hp.pending hooks hpending
  have hguards : { e.guards with runningHooks := false } = e.guards := by
    rw [← hp.idle]
  have hrun : runHooks r e = (.ok ⟨⟩, { e with pendingHooks := none }) := by
    unfold runHooks
    rw [get_run, hhooks]
    show ((.ok ⟨⟩, { e with
      pendingHooks := none, guards := { e.guards with runningHooks := false } }) :
        Except Halt PUnit × Engine) = _
    rw [hguards]
  have hlulls : Lulls xs e { e with pendingHooks := none } := lulls_aside rfl rfl nofun
  intro _
  rw [hrun]
  exact ⟨_, rfl, (hlulls hp).1, (hlulls hp).2, trivial⟩

/-- **What follows on an adopted value** is calm, whatever the value. -/
theorem calms_followUp (u old : Value) (origin : Origin) (force outermost : Bool)
    (initiating : Option ConstraintId) (hid : ∀ id, initiating = some id → e.Uncontested id) :
    Calms xs e (followUp r x u old origin force outermost initiating) fun _ ↦ True := by
  have hrest : ∀ {e₁ : Engine}, Calm e e₁ → e₁.Placid xs → Calms xs e₁ (do
      propagate r x u old origin force
      collectHook x
      if outermost then runHooks r) fun _ ↦ True := by
    intro e₁ h₁ hp₁
    refine (calms_propagate hr hp₁ hx (h₁.definition_eq ▸ hd) u old origin force).bind
      fun _ e₂ _ hp₂ _ ↦ (calms_collectHook hp₂ x).bind fun _ e₃ _ hp₃ _ ↦ ?_
    split
    · exact calms_runHooks hp₃
    · exact Calms.pure hp₃ trivial
  cases initiating with
  | none => exact hrest (refl_of Calm e) hp
  | some id => exact (calms_countWrite hp (hid id rfl)).bind fun _ e₁ h₁ hp₁ _ ↦ hrest h₁ hp₁

omit hr in
/-- The solver is offered what it has. -/
theorem calms_suggestPrimary : Calms xs e (suggestPrimary x (e.value x) .propagation d)
    fun outcome ↦ outcome = (none, .ok ()) := by
  refine .get_bind ?_
  split
  · exact Calms.pure hp rfl
  refine Calms.lift_bind hp (lulls_suggesting fun suggesting ↦ suggesting ++ [x]) fun e₁ h₁ hp₁ ↦ ?_
  obtain ⟨v, solver, flow, hspeaks⟩ := hp₁.speaks hx (h₁.definition_eq ▸ hd)
  have hnumber := hp₁.definite.number x hx (by rw [h₁.definition_eq, hd]; rfl)
  have hheld := Solver.suggest_held hspeaks.algorithm hspeaks.value hnumber (hp₁.definite.near x hx)
  have hsame : suggestTo d.solver d.handle (e.value x) e₁ = (.ok (), e₁) := by
    have hsolvers : e₁.solvers.modify d.solver (fun _ ↦ solver) = e₁.solvers := by
      rw [Arena.modify_congr hspeaks.registered (g := fun s ↦ s) rfl, Arena.modify_id]
    rw [suggestTo, askSolver_eq, hspeaks.registered, ← h₁.value_eq]
    dsimp only
    rw [hheld.1, hheld.2, hsolvers]
    rfl
  have hoffer : Calms xs e₁ (offer x (e.value x) .propagation d)
      fun outcome ↦ outcome = (none, .ok ()) := by
    intro _
    rw [show offer x (e.value x) .propagation d e₁ = (.ok (none, .ok ()), e₁) by
      show (attempt (suggestTo d.solver d.handle (e.value x)) >>= fun result ↦
        pure ((none : Bumped), result)) e₁ = _
      rw [bind_of_ok (attempt_ok hsame)]
      rfl]
    exact ⟨_, rfl, refl_of Calm e₁, hp₁, rfl⟩
  refine hoffer.bind fun outcome e₂ _ hp₂ houtcome ↦ ?_
  refine Calms.lift_bind hp₂ (lulls_suggesting fun suggesting ↦ suggesting.erase x) fun e₃ _ hp₃ ↦ ?_
  exact Calms.lift_bind hp₃ (lulls_reportSolve _ _ _) fun e₄ _ hp₄ ↦ Calms.pure hp₄ houtcome

omit hr in
/-- A constraint that speaks for a variable of a placid region has no rival. -/
theorem uncontested_of_initiate {id : ConstraintId} (hid : (Step.initiate (some d) e).1 = some id) :
    e.Uncontested id := by
  obtain ⟨hconstraint, c, hc⟩ := of_initiate hid
  obtain ⟨v, solver, flow, hspeaks⟩ := hp.speaks hx hd
  have hmem : id ∈ v.constraints.members := by
    rw [hspeaks.constraint] at hconstraint
    exact List.mem_of_find?_eq_some hconstraint
  obtain ⟨hsolver, hcandidates⟩ := hp.unshared.served x hx v hspeaks.live (d.solver, d.handle)
    (by rw [hspeaks.handles]; exact List.mem_singleton_self _) id hmem c hc
  exact ⟨c, hc, by rwa [hsolver]⟩

theorem calms_absorb (old : Value) (force outermost : Bool) :
    Calms xs e (absorb r x (e.value x) old .propagation force outermost)
      fun w ↦ w.bumped = none ∧ w.result = .ok () := by
  refine Calms.lift_bind hp (Reads.defining x) fun e₁ h₁ hp₁ ↦ ?_
  rw [hp.defining_eq, hd]
  have hd₁ : e₁.definition x = some d := h₁.definition_eq ▸ hd
  refine Calms.lift_bind hp₁ (lulls_initiate _) fun e₂ h₂ hp₂ ↦ ?_
  have hid : ∀ id, (Step.initiate (some d) e₁).1 = some id → e₂.Uncontested id :=
    fun id h ↦ (uncontested_of_initiate hp₁ hx hd₁ h).calm h₂
  generalize (Step.initiate (some d) e₁).1 = initiating at hid
  have hd₂ : e₂.definition x = some d := h₂.definition_eq ▸ hd₁
  rw [← h₁.value_eq, ← h₂.value_eq]
  dsimp only
  refine (calms_suggestPrimary hp₂ hx hd₂).bind fun outcome e₃ h₃ hp₃ houtcome ↦ ?_
  rw [houtcome]
  dsimp only
  refine ((calms_followUp hr hp₃ hx (h₃.definition_eq ▸ hd₂) _ old .propagation force outermost
    initiating fun id h ↦ (hid id h).calm h₃).attempt).bind fun result e₄ _ hp₄ ⟨_, hok, _⟩ ↦ ?_
  exact Calms.pure hp₄ ⟨rfl, hok⟩

end Spoken

/-- **A variable is suggested the value that it has.** -/
theorem calms_suggest (hp : e.Placid xs) (hx : x ∈ xs) (hv : e.vars.get? x = some v) :
    Calms xs e (suggest r x (e.value x) .propagation false) fun _ ↦ True := by
  refine .get_bind ?_
  rw [if_neg (by rw [hp.idle]; nofun)]
  refine (calms_storedValue hp hv).bind fun old e₁ h₁ hp₁ hold ↦ ?_
  split
  · exact Calms.pure hp₁ trivial
  next hnew =>
  cases hd : e₁.definition x with
  | none =>
    -- what nobody speaks for is stored already
    have hstored : old = e.value x := by
      rw [hold]
      split
      · next hparts => exact (hp.value_of_undefined hv hparts (h₁.definition_eq ▸ hd)).symm
      · rfl
    rw [hstored, hp.definite.near x hx] at hnew
    exact absurd rfl hnew
  | some d =>
    refine .get_bind ?_
    have hcollect : ∀ (hooks : Option (List PendingHook)) (e₂ : Engine), hooks.getD [] = [] →
        Lulls xs e₂ { e₂ with pendingHooks := hooks } := by
      rintro (- | hooks) e₂ hnone <;> refine lulls_aside rfl rfl fun _ hooks' heq ↦ ?_
      · cases heq
      · cases heq
        exact hnone
    have hend : ∀ (w : Written) (e₂ : Engine), e₂.Placid xs → w.bumped = none ∧ w.result = .ok () →
        Calms xs e₂ (do
          w.takeBack
          conclude x (e.value x) old w.result) fun _ ↦ True := by
      rintro ⟨initiating, bumped, result⟩ e₂ hp₂ ⟨rfl, rfl⟩
      refine Calms.lift_bind hp₂ ?_ fun e₃ _ hp₃ ↦ Calms.pure hp₃ trivial
      cases initiating with
      | none => exact .pure _
      | some id => exact lulls_annotate id fun _ ↦ rfl
    have habsorb : ∀ (e₂ : Engine) (outermost : Bool), Calm e₁ e₂ → e₂.Placid xs →
        Calms xs e₂ (absorb r x (e.value x) old .propagation false outermost)
          fun w ↦ w.bumped = none ∧ w.result = .ok () := by
      intro e₂ outermost h₂ hp₂
      rw [← h₁.value_eq, ← h₂.value_eq]
      exact calms_absorb hr hp₂ hx (h₂.definition_eq ▸ hd) old false outermost
    dsimp only
    split
    · refine Calms.modify_bind hp₁ (hcollect _ _ rfl) fun hp₂ ↦ ?_
      refine (habsorb _ _ (hcollect _ _ rfl hp₁).1 hp₂).bind fun w e₃ _ hp₃ hw ↦ ?_
      exact Calms.modify_bind hp₃ (hcollect _ _ rfl) fun hp₄ ↦ hend w _ hp₄ hw
    · exact (habsorb _ _ (refl_of Calm e₁) hp₁).bind fun w e₃ _ hp₃ hw ↦ hend w e₃ hp₃ hw

end Call

/-- **At any depth** what is known can be passed on. -/
theorem Reentry.passesOn_ofDepth (n : Nat) : (Reentry.ofDepth n).PassesOn xs := by
  induction n with
  | zero => exact fun _ _ _ hne ↦ absurd rfl hne
  | succ n ih => exact fun hp hx ⟨_, hv⟩ ↦ Call.calms_suggest ih hp hx hv

end LiveConstraints

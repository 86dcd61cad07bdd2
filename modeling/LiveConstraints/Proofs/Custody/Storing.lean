import LiveConstraints.Proofs.Custody.Answering
/-!
# What a write stores

A write that is propagated stores its value, and then rebuilds constraints and lets the neighbours of
its variable propagate, which may lead back to the variable. The guard on the variable keeps the
stored value until propagation is over (`Call.stored_of_spread`). A write whose value is stored already
is not propagated. So in either case the value is stored when a write was absorbed without a failure,
provided that no parts speak for the variable (`Call.storesNear_of_absorb`).
-/

namespace LiveConstraints

open Engine

variable {e e' e₁ : Engine} {r : Reentry} {x : VarId} {v old : Value} {origin : Origin}
  {force outermost : Bool} {xs ys zs : List VarId}

namespace Engine

/-- If nothing was recorded in all, nothing was recorded in either part. -/
theorem journal_eq_of_logs (h : Logs xs e e₁) (h' : Logs ys e₁ e') (hsilent : e'.journal = e.journal) :
    e₁.journal = e.journal ∧ e'.journal = e₁.journal := by
  have hback : e₁.journal.toList <+: e.journal.toList := hsilent ▸ h'.journal
  have hfirst : e₁.journal = e.journal :=
    Array.toList_inj.1 (h.journal.eq_of_length_le hback.length_le).symm
  exact ⟨hfirst, hsilent.trans hfirst.symm⟩

theorem flagsSet_eq (hsilent : e'.journal = e.journal) : e'.flagsSet = e.flagsSet := by
  rw [flagsSet, hsilent, flagsSet]

/-- If a variable exists, it stores a value. -/
def Stored (e : Engine) (x : VarId) (v : Value) : Prop :=
  ∀ w, e.vars.get? x = some w → w.shadow = v

/-- A propagating variable keeps what it stores. -/
theorem Stored.shields (hstored : e.Stored x v) (h : ShieldsBut xs ys e e')
    (hsilent : e'.journal = e.journal) (hstoring : x ∈ e.guards.storing) (hys : x ∉ ys)
    (hlt : x.index < e.vars.next.index) : e'.Stored x v := by
  intro w hw
  obtain ⟨u, hu, heq⟩ := (h.protects (flagsSet_eq hsilent)).shadow hstoring hys hw hlt
  rw [heq, hstored u hu]

end Engine

namespace Call

theorem stored_store (x : VarId) (v : Value) (e : Engine) : (store x v e).2.Stored x v := by
  intro w hw
  have hw' : (e.vars.modify x fun w ↦ { w with shadow := v }).get? x = some w := hw
  rw [Arena.get?_modify_self] at hw'
  obtain ⟨u, -, rfl⟩ := Option.map_eq_some_iff.1 hw'
  rfl

/-- Constraints are rebuilt while the value is stored. -/
theorem stored_of_updateUnbound (hr : r.Shielding) (hrun : updateUnbound r x v e = (.ok ⟨⟩, e'))
    (hstoring : x ∈ e.guards.storing) (hsilent : e'.journal = e.journal) : e'.Stored x v := by
  obtain ⟨w, hw, hrun⟩ := of_lookup_bind_ok (variableAt_eq x e) hrun
  obtain ⟨replaces, e₁, hreplaces, hrun⟩ := of_bind_ok hrun
  cases replaces with
  | true =>
    rw [if_pos rfl, get_run] at hrun
    cases hsplitting : e₁.guards.splitting with
    | true =>
      rw [hsplitting] at hrun
      cases hrun
      exact stored_store x v e₁
    | false =>
      rw [hsplitting] at hrun
      obtain ⟨_, e₂, -, hrun⟩ := of_bind_ok hrun
      obtain ⟨_, e₃, -, hrun⟩ := of_bind_ok hrun
      obtain ⟨_, e₄, -, hrun⟩ := of_bind_ok hrun
      obtain ⟨_, e₅, -, hrun⟩ := of_bind_ok hrun
      cases hrun
      exact stored_store x v e₅
  | false =>
    rw [if_neg Bool.false_ne_true, get_run] at hrun
    obtain ⟨_, e₂, hstore, hrun⟩ := of_bind_ok hrun
    obtain ⟨_, e₃, hloop, hrun⟩ := of_bind_ok hrun
    cases hrun
    have hreplaced : Shields e e₁ := (reads_replacesComposite x _ _).of_ok hreplaces
    have hstored : ShieldsBut [] [x] e₁ e₂ := (shields_store x v).of_ok hstore
    have hrebuilt : Shields e₂ e' := Within.of_ok (.forIn fun id _ _ e₃ _ ↦
      (hr.recalculate id).bind fun _ _ _ _ ↦ .pure _) hloop
    have hbefore := trans_of (ShieldsBut [] [x]) hreplaced.but hstored
    obtain ⟨hsilent₂, hsilent'⟩ := journal_eq_of_logs hbefore.toLogs hrebuilt.toLogs hsilent
    have hprotects := hbefore.protects (flagsSet_eq hsilent₂)
    have hnow : e₂.Stored x v := by
      cases hstore
      exact stored_store x v e₁
    refine hnow.shields hrebuilt hsilent' ?_ List.not_mem_nil ?_
    · rwa [hprotects.storing]
    · exact Nat.lt_of_lt_of_le (Arena.lt_next_of_get? hw) hprotects.next

/-- The neighbours of a variable propagate while the value is stored. -/
theorem stored_of_spreading (hr : r.Shielding) (hrun : spreading r x v e = (.ok ⟨⟩, e'))
    (hstoring : x ∈ e.guards.storing) (hsilent : e'.journal = e.journal) : e'.Stored x v := by
  obtain ⟨_, e₁, hdownstream, hrun⟩ := of_bind_ok hrun
  obtain ⟨_, e₂, hunbound, hconnected⟩ := of_bind_ok hrun
  have hhanded : Shields e e₁ := (operating_updateDownstream x v).of_ok hdownstream
  have hupdated : ShieldsBut [] [x] e₁ e₂ := (shields_updateUnbound hr x v).of_ok hunbound
  have hspread : Shields e₂ e' := (shields_updateConnected hr x).of_ok hconnected
  obtain ⟨hsilent₁, hrest⟩ := journal_eq_of_logs hhanded.toLogs
    (trans_of (ShieldsBut [] [x]) hupdated hspread.but).toLogs hsilent
  obtain ⟨hsilent₂, hsilent'⟩ := journal_eq_of_logs hupdated.toLogs hspread.toLogs hrest
  have hstoring₁ : x ∈ e₁.guards.storing := by rwa [(hhanded.protects (flagsSet_eq hsilent₁)).storing]
  have hprotects := hupdated.protects (flagsSet_eq hsilent₂)
  have hstored := stored_of_updateUnbound hr hunbound hstoring₁ hsilent₂
  obtain ⟨w, hw, -⟩ := of_lookup_bind_ok (variableAt_eq x e₁) hunbound
  refine hstored.shields hspread hsilent' ?_ List.not_mem_nil ?_
  · rwa [hprotects.storing]
  · exact Nat.lt_of_lt_of_le (Arena.lt_next_of_get? hw) hprotects.next

/-- **Propagation** that succeeds leaves the value stored. -/
theorem stored_of_spread (hr : r.Shielding) (hrun : spread r x v old origin e = (.ok ⟨⟩, e'))
    (hstoring : x ∉ e.guards.storing) (hsilent : e'.journal = e.journal) : e'.Stored x v := by
  unfold spread at hrun
  rw [get_run, if_neg (by simpa using hstoring)] at hrun
  obtain ⟨_, e₁, hraise, hrun⟩ := of_bind_ok hrun
  obtain ⟨result, e₂, hspread, hrun⟩ := of_bind_ok hrun
  obtain ⟨_, e₃, hlower, hrun⟩ := of_bind_ok hrun
  cases result with
  | error err =>
    dsimp only at hrun
    split at hrun
    · obtain ⟨_, e₄, -, hrun⟩ := of_bind_ok hrun
      cases hrun
    · cases hrun
  | ok _ =>
    cases hrun
    cases hraise
    cases hlower
    have hstored : e₂.Stored x v := stored_of_spreading hr (of_attempt_ok hspread)
      (List.mem_append_right _ List.mem_cons_self) hsilent
    exact hstored

end Call

/-! ### What follows on propagation -/

namespace Engine

/-- What a variable stores, and the variables of its parts. -/
def kept? (e : Engine) (x : VarId) : Option (Value × SortedMap String VarId) :=
  (e.vars.get? x).map fun v ↦ (v.shadow, v.parts)

/-- Unless a hook or handler started, variables store what they stored. -/
structure Stands (e e' : Engine) : Prop where
  journal : e.journal.size ≤ e'.journal.size
  kept : e'.journal.size = e.journal.size → e'.kept? = e.kept?

instance : IsPreorder Engine Stands where
  refl _ := ⟨Nat.le_refl _, fun _ ↦ rfl⟩
  trans _ _ _ h h' := by
    refine ⟨Nat.le_trans h.journal h'.journal, fun hjournal ↦ ?_⟩
    have hle := h.journal
    have hle' := h'.journal
    rw [h'.kept (by omega), h.kept (by omega)]

/-- Nothing is recorded and no variable changes. -/
theorem stands_of_vars (vars : e'.vars = e.vars) (journal : e'.journal = e.journal) : Stands e e' :=
  ⟨Nat.le_of_eq (by rw [journal]), fun _ ↦ funext fun x ↦ by rw [kept?, vars, kept?]⟩

theorem stands_modify {f : Variable → Variable}
    (kept : ∀ v, ((f v).shadow, (f v).parts) = (v.shadow, v.parts)) :
    Stands e { e with vars := e.vars.modify x f } :=
  ⟨Nat.le_refl _, fun _ ↦ funext fun y ↦ Arena.map_get?_modify (fun v _ ↦ kept v) y⟩

theorem Recalls.stands (h : Recalls e e') : Stands e e' := by
  refine ⟨Nat.le_of_eq (by rw [h.same]), fun _ ↦ funext fun x ↦ ?_⟩
  have hx := congrArg (Option.map fun v : Variable ↦ (v.shadow, v.parts)) (h.vars x)
  rwa [Option.map_map, Option.map_map] at hx

end Engine

namespace Step

theorem stands_modifySolver (s : SolverId) (f : Solver → Solver) :
    Within Stands e (modifySolver s f) := stands_of_vars rfl rfl

theorem stands_unpinDownstream (x : VarId) : Within Stands e (unpinDownstream x) := by
  have hforget : ∀ e₁, Within Stands e₁ (modifyVariable x fun v ↦ { v with pinned := none }) :=
    fun _ ↦ stands_modify fun _ ↦ rfl
  refine .get_bind ((hforget e).bind fun _ e₁ _ _ ↦ .forIn fun b _ _ e₂ _ ↦ ?_)
  exact (stands_modifySolver _ _).bind fun _ _ _ _ ↦ .pure _

theorem stands_takeBack (w : Call.Written) : Within Stands e w.takeBack := by
  obtain ⟨initiating, bumped, result⟩ := w
  have hmark : ∀ e₁, Within Stands e₁ (Call.Written.takeBack ⟨initiating, none, result⟩) := by
    intro e₁
    cases initiating with
    | none => exact .pure _
    | some id => exact stands_of_vars rfl rfl
  cases bumped with
  | none => exact hmark e
  | some b =>
    refine Within.bind (.get_bind ?_) fun _ e₁ _ _ ↦ hmark e₁
    have htick : ∀ e₁, Within Stands e₁ tick := fun _ ↦ stands_of_vars rfl rfl
    refine (stands_modifySolver _ _).bind fun _ e₁ _ _ ↦ (htick e₁).bind fun _ e₂ _ _ ↦ ?_
    exact .forM fun x _ _ _ ↦ stands_unpinDownstream x

end Step

namespace Call

theorem stands_collectHook (x : VarId) : Within Stands e (collectHook x) := by
  refine .lift_bind ((Step.recalls_defining x).mono fun _ ↦ Recalls.stands) fun d e₁ _ _ ↦ ?_
  split
  · refine .get_bind ?_
    split
    · exact fun _ ↦ stands_of_vars rfl rfl
    · exact .pure _
    · exact .tooDeep
  · exact .pure _

/-- A hook or handler is recorded before it starts. -/
theorem journal_lt_reaction (hr : r.Shielding) (entry : JournalEntry) (requests : List Request) :
    Within (fun e e' ↦ e.journal.size < e'.journal.size) e (do
      Step.record entry
      r.act requests) := by
  intro hne
  let recorded := { e with journal := e.journal.push entry }
  have hact : Shields recorded (r.act requests recorded).2 := hr.act requests hne
  have hle := hact.journal.length_le
  rw [Array.toList_push, List.length_append] at hle
  exact hle

theorem stands_reaction (hr : r.Shielding) (entry : JournalEntry) (requests : List Request) :
    Within Stands e (do
      Step.record entry
      r.act requests) :=
  (journal_lt_reaction hr entry requests).mono fun _ hlt ↦
    ⟨Nat.le_of_lt hlt, fun hsame ↦ absurd hsame (Nat.ne_of_gt hlt)⟩

theorem stands_runHook (hr : r.Shielding) (h : PendingHook) : Within Stands e (runHook r h) := by
  have hread : Within Stands e (attempt (readField h.receiver h.field)) :=
    ((recalls_readField _ _).mono fun _ ↦ Recalls.stands).attempt
  refine hread.bind fun result e₁ _ _ ↦ ?_
  cases result with
  | error err => exact .lift (stands_of_vars rfl rfl)
  | ok v => exact stands_reaction hr _ _

theorem stands_modifyGuards (f : Guards → Guards) : Step.Within Stands e (Step.modifyGuards f) :=
  stands_of_vars rfl rfl

theorem stands_runHooks (hr : r.Shielding) : Within Stands e (runHooks r) := by
  refine .get_bind (.modify_bind (stands_of_vars rfl rfl) ?_)
  refine .lift_bind (stands_modifyGuards _) fun _ e₁ _ _ ↦ ?_
  refine Within.bind (.forM fun h _ e₂ _ ↦ stands_runHook hr h) fun _ e₂ _ _ ↦ ?_
  exact .lift (stands_modifyGuards _)

/-! ### Deferred work -/

theorem stands_takeDeferred : Within Stands e takeDeferred :=
  stays_takeDeferred fun _ ↦ stands_of_vars rfl rfl

theorem stands_drain (hr : r.Shielding) (n : Nat) (failures : List EngineError) :
    Within Stands e (drain r n failures) :=
  stays_drain stands_takeDeferred (fun _ _ ↦ stands_reaction hr _ _) n failures

/-- Deferred failures are handed over, and the handler is recorded. -/
theorem journal_lt_of_drain {n : Nat} {failures rest : List EngineError} {handler : ErrorHandler}
    {errors : List EngineError} (hr : r.Shielding) (hmem : .handle handler errors ∈ e.deferred)
    (hrun : drain r n failures e = (.ok rest, e')) : e.journal.size < e'.journal.size := by
  induction n generalizing e failures with
  | zero =>
    unfold drain at hrun
    rw [get_run, if_neg (by simpa using List.ne_nil_of_mem hmem)] at hrun
    cases hrun
  | succ n ih =>
    obtain ⟨work, e₁, htake, hrun⟩ := of_bind_ok hrun
    rw [takeDeferred_eq] at htake
    split at htake
    · next hnil =>
      rw [hnil] at hmem
      cases hmem
    · next first later hdeferred =>
      cases htake
      rw [hdeferred] at hmem
      cases first with
      | handle _ _ =>
        obtain ⟨_, e₂, hhandle, hrun⟩ := of_bind_ok hrun
        have hlt := (journal_lt_reaction hr _ _).of_ok hhandle
        have hle := ((stands_drain hr n failures).of_ok hrun).journal
        exact Nat.lt_of_lt_of_le hlt hle
      | rethrow _ =>
        have hlater : .handle handler errors ∈ later := by
          cases hmem with
          | tail _ hlater => exact hlater
        exact ih (e := { e with deferred := later }) hlater hrun

theorem stands_settle (hr : r.Shielding) : Within Stands e (settle r) :=
  stays_settle (fun _ ↦ stands_of_vars rfl rfl) stands_takeDeferred fun _ _ ↦
    stands_reaction hr _ _

end Call

/-! ### Absorbing a write -/

namespace Engine

/-- If a variable exists and has no parts, what it stores is near a value. -/
def StoresNear (e : Engine) (x : VarId) (v : Value) : Prop :=
  ∀ w, e.vars.get? x = some w → w.parts.isEmpty = true → v.near w.shadow = true

theorem Stored.near (hstored : e.Stored x v) (hself : v.near v = true) : e.StoresNear x v := by
  intro w hw _
  rwa [hstored w hw]

theorem StoresNear.stands (hnear : e.StoresNear x v) (h : Stands e e')
    (hjournal : e'.journal.size = e.journal.size) : e'.StoresNear x v := by
  intro w hw hparts
  have hkept := congrFun (h.kept hjournal) x
  rw [kept?, hw, Option.map_some, eq_comm] at hkept
  obtain ⟨u, hu, heq⟩ := Option.map_eq_some_iff.1 hkept
  obtain ⟨hshadow, hsame⟩ := Prod.mk.inj heq
  rw [← hshadow]
  exact hnear u hu (hsame ▸ hparts)

end Engine

namespace Call

/-- What a write is compared with is stored, unless the variable has parts. -/
theorem storesNear_of_storedValue (hrun : storedValue x e = (.ok old, e'))
    (hnear : v.near old = true) : e'.StoresNear x v := by
  obtain ⟨w, hw, hrun⟩ := of_lookup_bind_ok (variableAt_eq x e) hrun
  intro u hu hparts
  split at hrun
  · cases hrun
    rwa [Option.some.inj (hu.symm.trans hw)]
  · next hsome =>
    have hread : Recalls e e' := (Within.lift (Step.recalls_read x)).of_ok hrun
    obtain ⟨w', hw', heq⟩ := hread.exists_before hu
    have hsame : u.parts = w'.parts := congrArg (·.parts) heq
    rw [Option.some.inj (hw'.symm.trans hw)] at hsame
    exact absurd (hsame ▸ hparts) hsome

theorem storesNear_of_propagate (hr : r.Shielding) (hself : v.near v = true)
    (hrun : propagate r x v old origin force e = (.ok ⟨⟩, e')) (hstoring : x ∉ e.guards.storing)
    (hsilent : e'.journal = e.journal) : e'.StoresNear x v := by
  cases force with
  | true => exact (stored_of_spread hr hrun hstoring hsilent).near hself
  | false =>
    obtain ⟨stored, e₁, hcompare, hrun⟩ := of_bind_ok hrun
    have hreads : Recalls e e₁ := (recalls_storedValue x).of_ok hcompare
    split at hrun
    · next hnear =>
      cases hrun
      exact storesNear_of_storedValue hcompare hnear
    · refine (stored_of_spread hr hrun ?_ ?_).near hself
      · rwa [hreads.guards]
      · rw [hsilent, hreads.same]

/-- What follows on a suggestion that was adopted. -/
theorem storesNear_of_followUp {initiating : Option ConstraintId} (hr : r.Shielding)
    (hself : v.near v = true)
    (hrun : followUp r x v old origin force outermost initiating e = (.ok ⟨⟩, e'))
    (hstoring : x ∉ e.guards.storing) (hsilent : e'.journal = e.journal) : e'.StoresNear x v := by
  have hrest : ∀ {e₁ : Engine}, x ∉ e₁.guards.storing → e'.journal = e₁.journal → (do
      propagate r x v old origin force
      collectHook x
      if outermost then runHooks r : Call Unit) e₁ = (.ok ⟨⟩, e') → e'.StoresNear x v := by
    intro e₁ hstoring₁ hsilent₁ hrun
    obtain ⟨_, e₂, hpropagate, hrun⟩ := of_bind_ok hrun
    obtain ⟨_, e₃, hcollect, hhooks⟩ := of_bind_ok hrun
    have hpropagated : Shields e₁ e₂ :=
      (stays_propagate (shields_spread hr x v old origin)).of_ok hpropagate
    have hcollected : Shields e₂ e₃ := (stays_collectHook x).of_ok hcollect
    have hran : Shields e₃ e' ∧ Stands e₃ e' := by
      cases outermost with
      | true => exact ⟨hr.runHooks.of_ok hhooks, (stands_runHooks hr).of_ok hhooks⟩
      | false =>
        cases hhooks
        exact ⟨refl_of Shields e', refl_of Stands e'⟩
    obtain ⟨hsilent₂, hsilent'⟩ :=
      journal_eq_of_logs hpropagated.toLogs (trans_of Shields hcollected hran.1).toLogs hsilent₁
    have hafter : Stands e₂ e' :=
      trans_of Stands ((stands_collectHook x).of_ok hcollect) hran.2
    exact (storesNear_of_propagate hr hself hpropagate hstoring₁ hsilent₂).stands hafter
      (by rw [hsilent'])
  cases initiating with
  | none => exact hrest hstoring hsilent hrun
  | some id =>
    obtain ⟨_, e₁, hcount, hrun⟩ := of_bind_ok hrun
    have hcounted : Shields e e₁ := (stays_countWrite (stays_reevaluate hr.stays id)).of_ok hcount
    have hfollowed : Shields e₁ e' :=
      (shields_followUp hr x v old origin force outermost none).of_ok hrun
    obtain ⟨hsilent₁, hsilent'⟩ := journal_eq_of_logs hcounted.toLogs hfollowed.toLogs hsilent
    refine hrest ?_ hsilent' hrun
    rwa [(hcounted.protects (flagsSet_eq hsilent₁)).storing]

/-- **Absorbing.** A write that was absorbed without a failure is stored. -/
theorem storesNear_of_absorb {w : Written} (hr : r.Shielding) (hself : v.near v = true)
    (hrun : absorb r x v old origin force outermost e = (.ok w, e')) (hok : w.result = .ok ⟨⟩)
    (hstoring : x ∉ e.guards.storing) (hsilent : e'.journal = e.journal) : e'.StoresNear x v := by
  have hfollow : ∀ {initiating : Option ConstraintId} {bumped : Bumped} {e₁ : Engine},
      ShieldsBut bumped.vars [] e e₁ → (do
        let result ← attempt (followUp r x v old origin force outermost initiating)
        return (⟨initiating, bumped, result⟩ : Written) : Call Written) e₁ = (.ok w, e') →
      e'.StoresNear x v := by
    intro initiating bumped e₁ h₁ hrun
    obtain ⟨result, e₂, hattempt, hlast⟩ := of_bind_ok hrun
    cases hlast
    cases hok
    have hfollowed : Shields e₁ e' :=
      (shields_followUp hr x v old origin force outermost initiating).attempt.of_ok hattempt
    obtain ⟨hsilent₁, hsilent'⟩ := journal_eq_of_logs h₁.toLogs hfollowed.toLogs hsilent
    refine storesNear_of_followUp hr hself (of_attempt_ok hattempt) ?_ hsilent'
    rwa [(h₁.protects (flagsSet_eq hsilent₁)).storing]
  obtain ⟨d, e₁, hd, hrun⟩ := of_bind_ok hrun
  obtain ⟨initiating, e₂, hinitiating, hrun⟩ := of_bind_ok hrun
  have hmarked : ∀ {zs : List VarId}, ShieldsBut zs [] e e₂ := fun {zs} ↦
    trans_of (ShieldsBut zs []) ((Within.lift (Reads.defining x)).of_ok hd)
      ((Within.lift (Step.shields_initiate d)).of_ok hinitiating)
  cases d with
  | none => exact hfollow hmarked hrun
  | some d =>
    obtain ⟨⟨bumped, result⟩, e₃, hoffer, hrun⟩ := of_bind_ok hrun
    cases result with
    | error err =>
      cases hrun
      cases hok
    | ok _ =>
      exact hfollow (trans_of (ShieldsBut _ []) hmarked (shields_of_suggestPrimary hoffer)) hrun

end Call

end LiveConstraints

import LiveConstraints.Proofs.Custody.Pins
import LiveConstraints.Proofs.Quiescence.Lowering
import LiveConstraints.Proofs.Reentrant.Writing
/-!
# What calls protect

To protect what there is (`Engine.Shields`) is a reentrant relation: with ways back into the engine
that stay within it (`Reentry.Shielding`), every operation does. Propagation does so only as a whole:
it stores the value of its variable, but only while the variable is not propagating already
(`Call.shields_spread`).
-/

namespace LiveConstraints

open Engine

variable {α : Type} {e e' : Engine} {r : Reentry} {x : VarId} {id : ConstraintId}
  {xs ys : List VarId}

/-- The ways back into the engine protect what there is. -/
structure Reentry.Shielding (r : Reentry) : Prop where
  suggest : ∀ {e} x v origin force, Call.Within Shields e (r.suggest x v origin force)
  recalculate : ∀ {e} id, Call.Within Shields e (r.recalculate id)
  act : ∀ {e} requests, Call.Within Shields e (r.act requests)

namespace Engine

/-- A variable that was not propagating may store a value. -/
theorem ShieldsBut.stopStoring (hx : x ∉ e.guards.storing)
    (h : ShieldsBut [] [x]
      { e with guards := { e.guards with storing := e.guards.storing ++ [x] } } e') :
    Shields e { e' with guards := { e'.guards with storing := e'.guards.storing.erase x } } := by
  refine ⟨⟨h.pins, h.journal⟩, fun hflags ↦ ?_⟩
  have hprotects := h.protects hflags
  refine ⟨⟨hprotects.secures.gone, hprotects.secures.secure⟩, ?_, hprotects.next, fun hy _ ↦ ?_⟩
  · dsimp only
    rw [hprotects.storing]
    dsimp only
    rw [List.erase_append_right _ hx, List.erase_cons_head, List.append_nil]
  · exact hprotects.shadow (List.mem_append_left _ hy) fun hmem ↦ hx (List.mem_singleton.1 hmem ▸ hy)

end Engine

namespace Call

/-- A computation that protects everything protects less, too. -/
theorem Within.shieldsBut {m : Call α} (h : Within Shields e m) : Within (ShieldsBut xs ys) e m :=
  h.mono fun _ ↦ Shields.but

theorem shields_modifyGuards {f : Guards → Guards} (hf : (f e.guards).storing = e.guards.storing) :
    Step.Within (ShieldsBut xs ys) e (Step.modifyGuards f) := shields_aside rfl rfl hf rfl

/-! ### Propagation -/

theorem shields_splitInto (hr : r.Shielding) (v : Value) (parts : List (String × VarId)) :
    Within Shields e (splitInto r v parts) := by
  refine .forM fun part _ e₁ _ ↦ ?_
  obtain ⟨name, part⟩ := part
  dsimp only
  cases v.part? name with
  | some number => exact (hr.suggest _ _ _ _).bind fun _ _ _ _ ↦ .pure _
  | none => exact .pure _

/-- A variable stores a value. -/
theorem shields_store (x : VarId) (v : Value) : Within (ShieldsBut [] [x]) e (store x v) := by
  refine fun _ ↦ ⟨⟨pinsOnly_modify fun _ h ↦ .inl h, List.prefix_refl _⟩, fun _ ↦ ?_⟩
  refine ⟨secures_of_solvers rfl fun _ _ ↦ holds_of_modify fun _ ↦ rfl, rfl,
    Nat.le_of_eq (congrArg Id.index (Arena.next_modify ..).symm), fun _ hy hw _ ↦ ⟨_, ?_, rfl⟩⟩
  have hne := fun heq ↦ hy (List.mem_singleton.2 heq)
  dsimp only [store, Step.modifyVariable] at hw
  rwa [← Arena.get?_modify_of_ne _ _ hne]

theorem shields_updateUnbound (hr : r.Shielding) (x : VarId) (v : Value) :
    Within (ShieldsBut [] [x]) e (updateUnbound r x v) := by
  refine .variableAt_bind fun w _ ↦ (reads_replacesComposite x _ _).bind fun replaces e₁ _ _ ↦ ?_
  have hstore : ∀ e₂, Within (ShieldsBut [] [x]) e₂ (store x v) := fun _ ↦ shields_store x v
  cases replaces with
  | true =>
    refine .get_bind ?_
    cases e₁.guards.splitting with
    | true => exact hstore e₁
    | false =>
      refine .lift_bind (shields_modifyGuards rfl) fun _ e₂ _ _ ↦ ?_
      refine (shields_splitInto hr v _).shieldsBut.attempt.bind fun result e₃ _ _ ↦ ?_
      refine .lift_bind (shields_modifyGuards rfl) fun _ e₄ _ _ ↦ ?_
      exact (Within.ofExcept result).bind fun _ e₅ _ _ ↦ hstore e₅
  | false =>
    refine .get_bind ((hstore e₁).bind fun _ e₂ _ _ ↦ ?_)
    refine Within.bind (.forIn fun id _ _ e₃ _ ↦ ?_) fun _ _ _ _ ↦ .pure _
    exact (hr.recalculate id).shieldsBut.bind fun _ _ _ _ ↦ .pure _

theorem shields_updateConnected (hr : r.Shielding) (x : VarId) :
    Within Shields e (updateConnected r x) := by
  refine .variableAt_bind fun w _ ↦ .get_bind ?_
  refine Within.bind (.forIn fun y _ _ e₁ _ ↦ .get_bind ?_) fun _ _ _ _ ↦ .pure _
  split
  · refine .lift_bind (Step.reads_read y) fun v e₂ _ _ ↦ ?_
    exact (hr.suggest y v _ _).bind fun _ _ _ _ ↦ .pure _
  · exact .pure _

theorem shields_putBack (hr : r.Shielding) (x : VarId) (old : Value) :
    Within Shields e (putBack r x old) := by
  refine (hr.suggest x old _ _).attempt.bind fun result e₁ _ _ ↦ ?_
  cases result with
  | ok _ => exact .pure _
  | error err => exact .get_bind (.lift (Step.operating_report _))

/-- The variable counts as propagating while its value is handed on. -/
def spreading (r : Reentry) (x : VarId) (v : Value) : Call Unit := do
  updateDownstream x v
  updateUnbound r x v
  updateConnected r x

theorem shields_spreading (hr : r.Shielding) (x : VarId) (v : Value) :
    Within (ShieldsBut [] [x]) e (spreading r x v) :=
  (operating_updateDownstream x v).bind fun _ _ _ _ ↦
    (shields_updateUnbound hr x v).bind fun _ _ _ _ ↦ (shields_updateConnected hr x).shieldsBut

/-- **Propagating** stores a value, but not where it may not be stored. -/
theorem shields_spread (hr : r.Shielding) (x : VarId) (v old : Value) (origin : Origin) :
    Within Shields e (spread r x v old origin) := by
  refine .get_bind ?_
  split
  · exact .pure _
  · next hstoring =>
    have hspreading : ∀ e₁, Within (ShieldsBut [] [x]) e₁ (attempt (spreading r x v)) :=
      fun _ ↦ (shields_spreading hr x v).attempt
    refine .bracket (g := fun g ↦ { g with storing := g.storing.erase x }) (hspreading _)
      (attempt_ne_failed _ _) (fun e₁ h₁ ↦ h₁.stopStoring (by simpa using hstoring))
      fun result e₁ _ _ ↦ ?_
    cases result with
    | ok _ => exact .pure _
    | error err =>
      dsimp only
      split
      · exact (shields_putBack hr x old).bind fun _ _ _ _ ↦ .fail _
      · exact .fail _

/-! ### Hooks -/

theorem shields_record (entry : JournalEntry) : Step.Within Shields e (Step.record entry) :=
  ⟨logs_push entry, fun _ ↦
    ⟨secures_of_solvers rfl fun _ _ ↦ .of_vars rfl, rfl, Nat.le_refl _, fun _ _ hw _ ↦ ⟨_, hw, rfl⟩⟩⟩

end Call

instance : Reentrant Shields :=
  .of_ordinary (fun _ vars _ solvers guards _ journal ↦
      shields_aside vars solvers (congrArg Guards.storing guards) journal)
    (fun _ ↦ shields_aside rfl rfl rfl rfl) (fun _ ↦ shields_aside rfl rfl rfl rfl)
    (fun _ _ _ ↦ Call.shields_record _)

namespace Reentry

theorem Shielding.runHooks (hr : r.Shielding) : Call.Within Shields e (Call.runHooks r) := by
  refine .get_bind (.modify_bind (shields_aside rfl rfl rfl rfl) ?_)
  refine .lift_bind (Call.shields_modifyGuards rfl) fun _ e₁ _ _ ↦ ?_
  refine Call.Within.bind (.forM fun h _ e₂ _ ↦ ?_) fun _ e₂ _ _ ↦ ?_
  · exact Call.stays_runHook (fun _ _ ↦ hr.act) h
  · exact .lift (Call.shields_modifyGuards rfl)

theorem Shielding.stays (hr : r.Shielding) : r.Stays Shields where
  suggest x v := hr.suggest x v .propagation false
  spread x v old := Call.shields_spread hr x v old .propagation
  runHooks _ _ := hr.runHooks

end Reentry

namespace Call

theorem shields_followUp (hr : r.Shielding) (x : VarId) (v old : Value) (origin : Origin)
    (force outermost : Bool) (initiating : Option ConstraintId) :
    Within Shields e (followUp r x v old origin force outermost initiating) :=
  stays_followUp (fun id ↦ stays_countWrite (stays_reevaluate hr.stays id)) (shields_spread hr x v old origin)
    (fun _ _ ↦ hr.runHooks) initiating

end Call

end LiveConstraints

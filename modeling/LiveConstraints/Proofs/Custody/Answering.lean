import LiveConstraints.Proofs.Custody.Writing
import LiveConstraints.Proofs.Quiescence.Answering
/-!
# What requests protect

Every request but one protects what there is (`Call.shields_perform`): a request to set flags may
make a secure handle insecure, and pins nothing all the same (`Call.logs_perform`). Hooks and
handlers may make that request, too. It is recorded then, and nothing is claimed of a computation in
which it was (`Call.shields_made`), so the ways back into the engine protect what there is, whatever
hooks and handlers do (`Reentry.shielding_reacting`). Between requests no variable is pinned
(`Engine.Driven.unpinned`).
-/

namespace LiveConstraints

open Engine

variable {α β : Type} {e e' : Engine} {r : Reentry} {config : Setup} {request : Request}
  {program : Program}

namespace Call

/-! ### Deferred work -/

theorem shields_handle (hr : r.Shielding) (handler : ErrorHandler) (errors : List EngineError) :
    Within Shields e (handle r handler errors) :=
  .lift_bind (shields_record _) fun _ _ _ _ ↦ hr.act handler.actions

theorem shields_settle (hr : r.Shielding) : Within Shields e (settle r) :=
  stays_settle (fun _ ↦ shields_aside rfl rfl rfl rfl)
    (stays_takeDeferred fun _ ↦ shields_aside rfl rfl rfl rfl) (shields_handle hr)

theorem shields_topLevel (hr : r.Shielding) {call : Call α}
    (hcall : ∀ {e}, Within Shields e call) : Within Shields e (topLevel r call) :=
  stays_topLevel (fun h ↦ ⟨⟨h.pins, h.journal⟩, fun hflags ↦
    have hprotects := h.protects hflags
    ⟨⟨hprotects.secures.gone, hprotects.secures.secure⟩, hprotects.storing, hprotects.next,
      hprotects.shadow⟩⟩) hcall (shields_settle hr)

/-! ### Answering -/

/-- **Answering.** A request that does not set flags protects what there is. -/
theorem shields_perform (hr : r.Shielding) (hflags : request.setsFlags = false) :
    Within Shields e (perform r request) := by
  refine stays_perform hr.stays
    (fun x v ↦ shields_topLevel hr (shields_suggest hr x v .source false))
    (fun hcall ↦ shields_topLevel hr hcall) (fun obj field on heq ↦ ?_) fun s weight _ ↦ ?_
  · rw [heq] at hflags
    cases hflags
  · refine .bind (.of_callSolver fun solver hsolver ↦ ?_) fun _ _ _ _ ↦ .lift Step.ordinary_tick
    exact Conserves.shields (conserves_of_vars rfl rfl rfl) (Pinning.weigh s fun other hother ↦
      ⟨weight, by rw [Option.some.inj (hother.symm.trans hsolver)]⟩)

theorem logs_setReadonly (obj : ObjectId) (field : String) (on : Bool) :
    Within (Logs []) e (setReadonly obj field on) :=
  within_setReadonly (fun _ _ _ ↦ logs_of_vars rfl rfl) obj field on

/-- Any request takes back its pins. -/
theorem logs_perform (hr : r.Shielding) (request : Request) :
    Within (Logs []) e (perform r request) := by
  cases hflags : request.setsFlags with
  | false => exact (shields_perform hr hflags).mono fun _ ↦ ShieldsBut.toLogs
  | true =>
    cases request <;> cases hflags
    exact (logs_setReadonly _ _ _).answered

/-- A request of a hook or handler that sets flags is recorded as such. -/
theorem shields_made {outcome : Except EngineError Answer} (hr : r.Shielding)
    (hrun : attempt (perform r request) e = (.ok outcome, e')) :
    Shields e { e' with journal := e'.journal.push (.made request outcome) } := by
  cases hflags : request.setsFlags with
  | false => exact trans_of Shields ((shields_perform hr hflags).attempt.of_ok hrun) (shields_record _)
  | true =>
    have hlogs : Logs [] e e' := (logs_perform hr request).attempt.of_ok hrun
    refine ⟨trans_of (Logs []) hlogs (logs_push _), fun hsame ↦ ?_⟩
    have hmade : (JournalEntry.made request outcome).setsFlags = true := hflags
    have hle := hlogs.flagsSet_le
    rw [flagsSet_push, hmade, if_pos rfl] at hsame
    omega

end Call

/-- The ways back into the engine protect what there is, whatever hooks and handlers do. -/
theorem Reentry.shielding_reacting (program : Program) (n : Nat) :
    (reacting program n).Shielding := by
  induction n with
  | zero =>
    exact {
      suggest := fun _ _ _ _ ↦ .tooDeep
      recalculate := fun _ ↦ .tooDeep
      act := fun _ ↦ .tooDeep }
  | succ n ih =>
    exact {
      suggest := fun x v origin force ↦ Call.shields_suggest ih x v origin force
      recalculate := fun id ↦ Call.stays_recalculate ih.stays Reentrant.reroute
      act := fun {e} requests ↦ Call.stays_follow (Call.shields_made ih) (program requests e) }

namespace Engine

/-- Between requests no variable is pinned. -/
theorem Driven.unpinned (h : Driven config e) (x : VarId) : ¬ e.Pinned x := by
  induction h with
  | new => rintro ⟨v, hv, -⟩; cases hv
  | @answer e n program request before returns ih =>
    have hlogs := Call.logs_perform (e := e) (Reentry.shielding_reacting program n) request returns
    exact fun hx ↦ (hlogs.pins x hx).elim ih List.not_mem_nil

end Engine

end LiveConstraints

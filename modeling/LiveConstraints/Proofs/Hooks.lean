import LiveConstraints.Proofs.Custody.Repeating
/-!
# Hooks have their turn when a write is done

Many writes may be made in the course of one, by propagation, by selection and by putting values
back. Each of them collects the hook that watches what it changed, and the outermost one owns the
list. The outermost write is put together from three parts: it is carried out (`Call.carryOut`), then
the hooks have their turn if it was adopted, and then it is closed (`Call.suggest_outermost`). Nothing
is recorded in the first part and in the last one, so hooks start in the second part only.

`Call.HooksRun` says what happens in the second part: the hooks that were collected have their turn,
one after another, those of the same field only once. While they do, nothing is being suggested to or
propagating, and no hooks are collected (`Engine.Hooking`). This is kept by whatever they ask for, so
that each write to an intercepted field that they make is answered at once
(`Call.perform_write_of_hooking`). `Engine.Idle.write_runs_hooks` puts this together.
-/

namespace LiveConstraints

open Engine

variable {e e' e₁ e₂ : Engine} {r r' : Reentry} {x : VarId} {v old : Value} {origin : Origin}
  {force : Bool} {obj : ObjectId} {field : String} {request : Request} {reaction : Reaction}
  {program : Program} {n : Nat}

/-! ### Which hooks have a turn -/

namespace PendingHook

/-- What a hook watches. -/
def key (h : PendingHook) : ObjectId × String := (h.receiver, h.field)

/-- A hook is kept unless one that watches the same field is. -/
def keep (kept : List PendingHook) (h : PendingHook) : List PendingHook :=
  if kept.any fun k => k.receiver == h.receiver && k.field == h.field then kept else kept ++ [h]

theorem distinct_eq (hooks : List PendingHook) : distinct hooks = hooks.foldl keep [] := rfl

theorem any_watches {kept : List PendingHook} {h : PendingHook} :
    (kept.any fun k ↦ k.receiver == h.receiver && k.field == h.field) = true
      ↔ h.key ∈ kept.map key := by
  rw [List.any_eq_true, List.mem_map]
  refine exists_congr fun k ↦ and_congr_right fun _ ↦ ?_
  rw [Bool.and_eq_true, beq_iff_eq, beq_iff_eq]
  exact (@Prod.ext_iff _ _ k.key h.key).symm

theorem mem_keys_keep {kept : List PendingHook} {h : PendingHook} {k : ObjectId × String} :
    k ∈ (keep kept h).map key ↔ k ∈ kept.map key ∨ k = h.key := by
  unfold keep
  split
  · next hmem => exact (or_iff_left_of_imp fun heq ↦ heq ▸ any_watches.1 hmem).symm
  · rw [List.map_append, List.mem_append, List.map_singleton, List.mem_singleton]

theorem nodup_keys_keep {kept : List PendingHook} (hkept : (kept.map key).Nodup) (h : PendingHook) :
    ((keep kept h).map key).Nodup := by
  unfold keep
  split
  · exact hkept
  · next hnew =>
    have hfresh : h.key ∉ kept.map key := fun hmem ↦ hnew (any_watches.2 hmem)
    rw [List.map_append, List.map_singleton]
    exact List.nodup_append.2 ⟨hkept, List.nodup_singleton _, by simpa using hfresh⟩

/-- A field is watched by a hook that is kept if and only if it is watched by any. -/
theorem mem_keys_distinct {hooks : List PendingHook} {k : ObjectId × String} :
    k ∈ (distinct hooks).map key ↔ k ∈ hooks.map key := by
  suffices hfold : ∀ kept, k ∈ (hooks.foldl keep kept).map key
      ↔ k ∈ kept.map key ∨ k ∈ hooks.map key by
    rw [distinct_eq, hfold, List.map_nil, or_iff_right List.not_mem_nil]
  induction hooks with
  | nil => simp
  | cons h hooks ih =>
    intro kept
    rw [List.foldl_cons, ih, mem_keys_keep, List.map_cons, List.mem_cons, or_assoc]

/-- Of the hooks that are kept, no two watch the same field. -/
theorem nodup_keys_distinct (hooks : List PendingHook) : ((distinct hooks).map key).Nodup := by
  suffices hfold : ∀ kept : List PendingHook, (kept.map key).Nodup →
      ((hooks.foldl keep kept).map key).Nodup from hfold [] List.nodup_nil
  induction hooks with
  | nil => exact fun _ hkept ↦ hkept
  | cons h hooks ih => exact fun kept hkept ↦ ih _ (nodup_keys_keep hkept h)

end PendingHook

/-! ### While hooks have their turn -/

namespace Engine

/-- Hooks are running: a call is in progress, but nothing is being suggested to or propagating, and
no hooks are collected. -/
structure Hooking (e : Engine) : Prop extends Receptive e where
  running : e.guards.runningHooks = true
  suggesting : e.guards.suggesting = []
  storing : e.guards.storing = []

instance : Frames Hooking Lowers where
  steady h := h.resumes.toLowers
  keeps h he := by
    refine ⟨Persists.keeps h he.toReceptive, ?_, ?_, ?_⟩
    · rw [h.guards, ← he.running]
    · rw [h.guards, ← he.suggesting]
    · rw [h.guards, ← he.storing]

/-- The collected hooks are taken, and run. -/
def takeHooks (e : Engine) : Engine :=
  { e with pendingHooks := none, guards := { e.guards with runningHooks := true } }

/-- A call is entered. -/
def entered (e : Engine) : Engine :=
  { e with guards := { e.guards with nesting := e.guards.nesting + 1 } }

end Engine

namespace Call

/-- The requests that a reaction makes when it starts at an engine, each with the engine that it is
made at. -/
inductive Asks (r : Reentry) : Reaction → Engine → Request → Engine → Prop where
  /-- The first request. -/
  | first (request : Request) (next : Except EngineError Answer → Engine → Reaction) (e : Engine) :
      Asks r (.ask request next) e request e
  /-- A request that it makes when it has been given the outcome of the first one. -/
  | later {request asked : Request} {next : Except EngineError Answer → Engine → Reaction}
      {e e₁ e' : Engine} {outcome : Except EngineError Answer}
      (answered : attempt (perform r request) e = (.ok outcome, e₁))
      (rest : Asks r (next outcome { e₁ with journal := e₁.journal.push (.made request outcome) })
        { e₁ with journal := e₁.journal.push (.made request outcome) } asked e') :
      Asks r (.ask request next) e asked e'

/-- Whatever a reaction asks for, it asks for its next request where nothing is left of that. -/
theorem Asks.resumes (h : Asks r' reaction e request e') (hr : r.Shadows r') (ho : e.Orderly)
    (hpending : e.pendingHooks = none) : Resumes e e' := by
  induction h with
  | first request next e => exact refl_of Resumes e
  | @later request asked next e e₁ e' outcome answered rest ih =>
    have hanswered : Resumes e e₁ :=
      (((heeds_perform hr request).attempt ho).within.of_ok answered).toResumes
    have hpending₁ := hanswered.pending.none hpending
    have hmade : Resumes e₁ { e₁ with journal := e₁.journal.push (.made request outcome) } :=
      resumes_made hpending₁
    have hrecorded := trans_of Resumes hanswered hmade
    exact trans_of Resumes hrecorded (ih (ho.lowers hrecorded.toLowers) hpending₁)

/-- A handler starts at an idle engine, and finds it idle at each of its requests. -/
theorem Asks.idle (h : Asks r' reaction e request e') (hr : r.Shadows r') (hi : e.Idle) : e'.Idle :=
  Persists.keeps (h.resumes hr (fun _ ↦ hi) hi.pending) hi

/-- **Writes of hooks.** A write to an intercepted field that is made while hooks are running is
answered with its value, and changes nothing. -/
theorem perform_write_of_hooking (he : e.Hooking) (hx : (e.variableOf? obj field).isSome) :
    perform r (.write obj field v) e = (.ok (.value v), e) := by
  obtain ⟨x, hx⟩ := Option.isSome_iff_exists.1 hx
  have hsuggest : suggest r x v .source false e.entered = (.ok v, e.entered) := by
    have hrunning : e.entered.guards.runningHooks = true := he.running
    rw [suggest, get_run, if_pos hrunning]
    rfl
  have hwrite : writeField r obj field v e = (.ok v, e) := by
    rw [writeField_of_intercepted hx]
    exact topLevel_of_settled (settle_of_busy he.busy) hsuggest
  exact bind_of_ok hwrite

end Call

/-! ### Turns -/

/-- A hook that has its turn. -/
structure HookTurn where
  /-- The hook. -/
  hook : PendingHook
  /-- The engine where it has its turn. -/
  found : Engine
  /-- The value of its field there, if the field can be read. If it cannot, the hook is skipped. -/
  value : Option Value
  /-- The engine where it starts. -/
  start : Engine

namespace HookTurn

/-- What is recorded when the hook starts. -/
def entry? (turn : HookTurn) : Option JournalEntry :=
  turn.value.map (.hook turn.hook.receiver turn.hook.field)

end HookTurn

namespace Call

/-- Hooks have their turn, one after another. -/
inductive HooksRun (r : Reentry) : List HookTurn → Engine → Engine → Prop where
  /-- All of them had their turn. -/
  | done (e : Engine) : HooksRun r [] e e
  /-- The field of the first one cannot be read. -/
  | skip {h : PendingHook} {err : EngineError} {turns : List HookTurn} {e e₁ e₂ e' : Engine}
      (unreadable : attempt (readField h.receiver h.field) e = (.ok (.error err), e₁))
      (reported : (Step.report (.hookSkipped h.receiver h.field err) e₁).2 = e₂)
      (rest : HooksRun r turns e₂ e') : HooksRun r (⟨h, e, none, e₂⟩ :: turns) e e'
  /-- The first one is given the value of its field. -/
  | run {h : PendingHook} {v : Value} {turns : List HookTurn} {e e₁ e₂ e₃ e' : Engine}
      (readable : attempt (readField h.receiver h.field) e = (.ok (.ok v), e₁))
      (recorded : (Step.record (.hook h.receiver h.field v) e₁).2 = e₂)
      (acts : r.act h.hook e₂ = (.ok ⟨⟩, e₃))
      (rest : HooksRun r turns e₃ e') : HooksRun r (⟨h, e, some v, e₂⟩ :: turns) e e'

theorem hooksRun_of_forM {hooks : List PendingHook}
    (hrun : hooks.forM (runHook r) e = (.ok ⟨⟩, e')) :
    ∃ turns, turns.map HookTurn.hook = hooks ∧ HooksRun r turns e e' := by
  induction hooks generalizing e with
  | nil =>
    cases hrun
    exact ⟨[], rfl, .done _⟩
  | cons h hooks ih =>
    obtain ⟨_, e₂, hfirst, hlater⟩ := of_bind_ok hrun
    obtain ⟨turns, rfl, hturns⟩ := ih hlater
    obtain ⟨result, e₁, hread, hfirst⟩ := of_bind_ok hfirst
    cases result with
    | error err =>
      cases hfirst
      exact ⟨_, rfl, .skip hread rfl hturns⟩
    | ok v => exact ⟨_, rfl, .run hread rfl hfirst hturns⟩

end Call

/-- A hook has its turn where nothing is being suggested to or propagating, and is given what its
field reports there. Whatever it asks for, each write to an intercepted field that it makes is answered
with its value, and changes nothing. -/
structure HookTurn.Undisturbed (program : Program) (n : Nat) (turn : HookTurn) : Prop where
  hooking : turn.found.Hooking
  value : turn.found.reported? turn.hook.receiver turn.hook.field = turn.value
  muted : ∀ obj field v e',
    Call.Asks (Reentry.reacting program (n - 1)) (program turn.hook.hook turn.start) turn.start
        (.write obj field v) e' →
      (e'.variableOf? obj field).isSome →
        Call.perform (Reentry.reacting program (n - 1)) (.write obj field v) e' = (.ok (.value v), e')

namespace Call

theorem reported?_of_readField {value : Except EngineError Value}
    (hread : attempt (readField obj field) e = (.ok value, e₁)) :
    e.reported? obj field = value.toOption := by
  cases value with
  | ok v =>
    have hanswer : e.answer (.read obj field) = (.ok (.value v), e₁) :=
      bind_of_ok (of_attempt_ok hread)
    rw [reported?, hanswer]
    rfl
  | error err =>
    have hanswer : e.answer (.read obj field) = (.error (.failed err), e₁) :=
      bind_of_error (of_attempt_error hread)
    rw [reported?, hanswer]
    rfl

theorem steady_of_readField {value : Except EngineError Value}
    (hread : attempt (readField obj field) e = (.ok value, e₁)) : Steady e e₁ := by
  have hreads : Within Steady e (attempt (readField obj field)) :=
    (reads_readField obj field).attempt
  exact hreads.of_ok hread

/-- Nothing of what a hook asks for undoes that hooks are running. -/
theorem undisturbed_of_hooking {turn : HookTurn} (hfound : turn.found.Hooking)
    (hstart : turn.start.Hooking)
    (hvalue : turn.found.reported? turn.hook.receiver turn.hook.field = turn.value) :
    turn.Undisturbed program n where
  hooking := hfound
  value := hvalue
  muted obj field v e' hasks hx := by
    have hr := Reentry.shadows_watched (fun _ ↦ pure ()) program (n - 1)
    have hresumes : Resumes turn.start e' := hasks.resumes hr hstart.busy.orderly hstart.pending
    exact perform_write_of_hooking (Persists.keeps hresumes hstart) hx

/-- **Turns.** The hooks that start are those that are recorded, and nothing else starts. -/
theorem HooksRun.undisturbed {turns : List HookTurn}
    (h : HooksRun (Reentry.reacting program n) turns e e') (he : e.Hooking) :
    e'.Hooking ∧ e'.started = e.started ++ turns.filterMap HookTurn.entry? ∧
      ∀ turn ∈ turns, turn.Undisturbed program n := by
  -- a turn is over where hooks may have the next one, so that the induction goes on from there
  induction h with
  | done e => exact ⟨he, (List.append_nil _).symm, List.forall_mem_nil _⟩
  | @skip h err turns e e₁ e₂ e' unreadable reported rest ih =>
    have hread := steady_of_readField unreadable
    have hreport : Steady e₁ e₂ := reported ▸ Step.operating_report _
    have hskip : Steady e e₂ := trans_of Steady hread hreport
    have he₂ : e₂.Hooking := Persists.keeps hskip.resumes he
    obtain ⟨he', hstarted, hturns⟩ := ih he₂
    refine ⟨he', ?_, ?_⟩
    · rw [hstarted, started_congr hskip.journal]
      rfl
    · rw [List.forall_mem_cons]
      exact ⟨undisturbed_of_hooking he he₂ (reported?_of_readField unreadable), hturns⟩
  | @run h v turns e e₁ e₂ e₃ e' readable recorded acts rest ih =>
    have hread := steady_of_readField readable
    have he₁ : e₁.Hooking := Persists.keeps hread.resumes he
    have he₂ : e₂.Hooking := by
      subst recorded
      exact ⟨⟨he₁.busy, he₁.pending⟩, he₁.running, he₁.suggesting, he₁.storing⟩
    -- the last entry is that of the hook, so that this is not the start of a handler
    have hnew : ¬ e₂.AtHandler := by
      rintro ⟨tag, errors, hback⟩
      subst recorded
      cases Array.back?_push.symm.trans hback
    have hr := Reentry.shadows_watched (fun _ ↦ pure ()) program n
    have hacts : Resumes e₂ e₃ :=
      (hr.act e₂ h.hook (absurd · hnew) he₂.busy.orderly he₂.pending).within.of_ok acts
    obtain ⟨he', hstarted, hturns⟩ := ih (Persists.keeps hacts he₂)
    refine ⟨he', ?_, ?_⟩
    · have hrecorded : e₂.started = e₁.started ++ [.hook h.receiver h.field v] :=
        recorded ▸ started_push _
      rw [hstarted, hacts.silent he₂.running, hrecorded, started_congr hread.journal,
        List.append_assoc]
      rfl
    · rw [List.forall_mem_cons]
      exact ⟨undisturbed_of_hooking he he₂ (reported?_of_readField readable), hturns⟩

/-- What running hooks that did not break off comes to. -/
theorem hooksRun_of_runHooks {result : Except EngineError Unit}
    (hunfailing : ∀ requests, Unfailing (r.act requests))
    (hrun : attempt (runHooks r) e = (.ok result, e')) :
    result = .ok ⟨⟩ ∧ ∃ turns e₂,
      turns.map HookTurn.hook = PendingHook.distinct (e.pendingHooks.getD []) ∧
      HooksRun r turns e.takeHooks e₂ ∧
      e' = { e₂ with guards := { e₂.guards with runningHooks := false } } := by
  have hruns : Unfailing (runHooks r) := .get_bind fun e₀ ↦ (Unfailing.lift _).bind fun _ ↦
    (Unfailing.lift _).bind fun _ ↦ (Unfailing.forM fun h _ ↦ unfailing_runHook hunfailing h).bind
      fun _ ↦ .lift _
  cases result with
  | error err => exact absurd (by rw [of_attempt_error hrun]) (hruns e err)
  | ok _ =>
    have hrest : (do
        (PendingHook.distinct (e.pendingHooks.getD [])).forM (runHook r)
        Step.modifyGuards fun g => { g with runningHooks := false } : Call Unit) e.takeHooks
          = (.ok ⟨⟩, e') := of_attempt_ok hrun
    obtain ⟨_, e₂, hhooks, hlower⟩ := of_bind_ok hrest
    cases hlower
    obtain ⟨turns, hsame, hturns⟩ := hooksRun_of_forM hhooks
    exact ⟨rfl, turns, e₂, hsame, hturns, rfl⟩

/-! ### The parts of an outermost write -/

/-- Carries out an outermost write: the value is offered to the defining solver and handed on. Returns
what the variable stored before, and how it went; `none` if the variable stores the value already. -/
def carryOut (r : Reentry) (x : VarId) (v : Value) (origin : Origin) (force : Bool) :
    Call (Option (Value × Written)) := do
  let old ← storedValue x
  if !force && v.near old then return none
  modify fun e => { e with pendingHooks := some [] }
  let written ← absorb r x v old origin force false
  return some (old, written)

/-- Ends an outermost write. -/
def close (x : VarId) (v old : Value) (written : Written) : Call Value := do
  modify fun e => { e with pendingHooks := none }
  written.takeBack
  conclude x v old written.result

/-- **An outermost write** is carried out and closed, and if it was adopted, the hooks have their turn
in between. -/
theorem suggest_outermost (hrunning : e.guards.runningHooks = false)
    (hpending : e.pendingHooks = none) :
    suggest r x v origin force e = (do
      match ← carryOut r x v origin force with
      | none => return v
      | some (old, w) =>
        match w.result with
        | .error _ => close x v old w
        | .ok () => close x v old { w with result := ← attempt (runHooks r) } : Call Value) e := by
  unfold suggest carryOut
  rw [get_run, if_neg (Bool.eq_false_iff.1 hrunning), bind_assoc]
  rcases hstored : storedValue x e with ⟨halt | old, e₁⟩
  · rw [bind_of_error hstored, bind_of_error hstored]
  · have hsteady : Steady e e₁ := Within.of_ok (reads_storedValue x) hstored
    rw [bind_of_ok hstored, bind_of_ok hstored]
    cases !force && v.near old with
    | true => rfl
    | false =>
      have hnone : e₁.pendingHooks.isNone = true := by rw [hsteady.pending, hpending]; rfl
      simp only [Bool.false_eq_true, if_false, bind_assoc, pure_bind]
      rw [get_run, hnone]
      simp only [if_true, absorb_outermost, bind_assoc]
      refine congrFun (congrArg (_ >>= ·) (funext fun _ ↦ ?_)) e₁
      refine congrArg (_ >>= ·) (funext fun w ↦ ?_)
      cases w.result with
      | error err => rfl
      | ok _ => simp [close]

end Call

namespace Engine

/-- Nothing was recorded, and the guards are as before. -/
structure Unrecorded (e e' : Engine) : Prop where
  guards : e'.guards = { e.guards with generation := e'.guards.generation }
  journal : e'.journal = e.journal

instance : IsPreorder Engine Unrecorded where
  refl _ := ⟨rfl, rfl⟩
  trans _ _ _ h h' := by
    refine ⟨?_, h'.journal.trans h.journal⟩
    rw [h'.guards, h.guards]

theorem Steady.unrecorded (h : Steady e e') : Unrecorded e e' := ⟨h.guards, h.journal⟩

end Engine

namespace Call

/-- While an outermost write is carried out, no hook starts. -/
theorem unrecorded_carryOut (hr : r.Shadows r') (hb : e.Busy) :
    Within Unrecorded e (carryOut r' x v origin force) := by
  have hstored : Within Unrecorded e (storedValue x) :=
    (reads_storedValue x).mono fun _ ↦ Steady.unrecorded
  refine hstored.bind fun old e₁ _ h₁ ↦ ?_
  cases !force && v.near old with
  | true => exact .pure _
  | false =>
    let e₂ := { e₁ with pendingHooks := some [] }
    have hb₂ : e₂.Busy := by rwa [Busy, h₁.guards]
    have habsorb : Within Unrecorded e₂ (absorb r' x v old origin force false) := by
      refine Within.mono (coincide_absorb hr hb₂).2 fun e₃ h₃ ↦ ?_
      have h := (Step.resumesBut_mark x e₂).before h₃
      exact ⟨h.guards, (h.pending.some rfl).2⟩
    exact .modify_bind ⟨rfl, rfl⟩ (habsorb.bind fun _ _ _ _ ↦ .pure _)

theorem unrecorded_takeBack (w : Written) : Step.Within Unrecorded e w.takeBack := by
  obtain ⟨initiating, bumped, result⟩ := w
  have hmark : ∀ e₁, Step.Within Unrecorded e₁ (Written.takeBack ⟨initiating, none, result⟩) := by
    intro e₁
    cases initiating <;> exact ⟨rfl, rfl⟩
  cases bumped with
  | none => exact hmark e
  | some b =>
    have hunbump : Step.Within Unrecorded e (Step.unbump b.1 b.2) :=
      (Step.ordinary_unbump b.1 b.2).mono fun _ ↦ Steady.unrecorded
    exact hunbump.bind fun _ e₁ _ _ ↦ hmark e₁

theorem unrecorded_conclude (result : Except EngineError Unit) :
    Within Unrecorded e (conclude x v old result) := by
  cases result with
  | ok _ => exact .pure _
  | error err =>
    have hread : Step.Within Unrecorded e (Step.read x) :=
      (Step.reads_read x).mono fun _ ↦ Steady.unrecorded
    refine .lift_bind hread fun now e₁ _ _ ↦ ?_
    split
    · have hgiven : Within Unrecorded e₁ (handOver x err) := by
        refine .get_bind ?_
        dsimp only
        split
        · exact fun _ ↦ ⟨rfl, rfl⟩
        · exact .fail _
      exact hgiven.bind fun _ _ _ _ ↦ .pure _
    · exact .get_bind (.fail _)

theorem unrecorded_close (w : Written) : Within Unrecorded e (close x v old w) := by
  refine .modify_bind ⟨rfl, rfl⟩ ?_
  exact .lift_bind (unrecorded_takeBack w) fun _ _ _ _ ↦ unrecorded_conclude w.result

end Call

/-! ### Writes -/

namespace Engine

/-- The engine at which a write of its own was carried out, if it was adopted. -/
def adopted? (e : Engine) (r : Reentry) (x : VarId) (v : Value) : Option Engine :=
  match Call.carryOut r x v .source false e.entered with
  | (.ok (some (_, w)), e₁) => if w.result.isOk then some e₁ else none
  | _ => none

theorem adopted?_eq_some (h : e.adopted? r x v = some e₁) : ∃ old w,
    Call.carryOut r x v .source false e.entered = (.ok (some (old, w)), e₁) ∧ w.result = .ok ⟨⟩ := by
  unfold adopted? at h
  split at h
  · next old w e₂ hcarry =>
    split at h
    · next hok =>
      cases h
      refine ⟨old, w, hcarry, ?_⟩
      cases hresult : w.result with
      | ok _ => rfl
      | error err =>
        rw [hresult] at hok
        cases hok
    · cases h
  · cases h

theorem busy_entered (e : Engine) : e.entered.Busy := Nat.succ_pos _

theorem unrecorded_of_adopted (hadopted : e.adopted? (Reentry.reacting program n) x v = some e₁) :
    Unrecorded e.entered e₁ := by
  have hr := Reentry.shadows_watched (fun _ ↦ pure ()) program n
  obtain ⟨old, w, hcarry, -⟩ := adopted?_eq_some hadopted
  exact (Call.unrecorded_carryOut hr (busy_entered e)).of_ok hcarry

/-- A write that was not adopted runs no hooks. -/
theorem Idle.unrecorded_of_not_adopted (hi : e.Idle)
    (hadopted : e.adopted? (Reentry.reacting program n) x v = none)
    (hreturns : (Call.suggest (Reentry.reacting program n) x v .source false e.entered).1
      ≠ .error .tooDeep) :
    (Call.suggest (Reentry.reacting program n) x v .source false e.entered).2.journal
      = e.journal := by
  have hr := Reentry.shadows_watched (fun _ ↦ pure ()) program n
  have hcarries : Call.Within Unrecorded e.entered
      (Call.carryOut (Reentry.reacting program n) x v .source false) :=
    Call.unrecorded_carryOut hr (busy_entered e)
  have hrunning : e.entered.guards.runningHooks = false := hi.runningHooks
  rw [Call.suggest_outermost hrunning hi.pending] at hreturns ⊢
  rcases hcarry : Call.carryOut (Reentry.reacting program n) x v .source false e.entered with
    ⟨halt | (_ | ⟨old, w⟩), e₁⟩
  · -- what the variable stores could not be told
    rw [Call.bind_of_error hcarry] at hreturns ⊢
    rw [Call.Within, hcarry] at hcarries
    exact (hcarries fun h ↦ hreturns (by cases h; rfl)).journal
  · -- the value is stored already
    rw [Call.bind_of_ok hcarry]
    exact (hcarries.of_ok hcarry).journal
  · -- the value was offered, and the hooks that were collected are dropped
    rw [Call.bind_of_ok hcarry] at hreturns ⊢
    have hcarried : Unrecorded e.entered e₁ := hcarries.of_ok hcarry
    cases hresult : w.result with
    | ok _ =>
      rw [adopted?, hcarry] at hadopted
      simp [hresult, Except.isOk, Except.toBool] at hadopted
    | error err =>
      simp only [hresult] at hreturns ⊢
      have hclosed := Call.unrecorded_close w hreturns
      exact hclosed.journal.trans hcarried.journal

/-- When a write has been carried out at an idle engine, hooks may have their turn. -/
theorem Idle.hooking_takeHooks (hi : e.Idle) (hcarried : Unrecorded e.entered e₁) :
    e₁.takeHooks.Hooking := by
  have hguards : e₁.guards = { e.entered.guards with generation := e₁.guards.generation } :=
    hcarried.guards
  refine ⟨⟨?_, rfl⟩, rfl, ?_, ?_⟩
  · show 0 < e₁.guards.nesting
    rw [hguards]
    exact busy_entered e
  · show e₁.guards.suggesting = []
    rw [hguards]
    exact congrArg Guards.suggesting hi.guards
  · show e₁.guards.storing = []
    rw [hguards]
    exact congrArg Guards.storing hi.guards

/-- A write that was adopted gives the hooks that it collected their turn. -/
theorem Idle.hooksRun_of_adopted (hi : e.Idle)
    (hadopted : e.adopted? (Reentry.reacting program n) x v = some e₁)
    (hreturns : (Call.suggest (Reentry.reacting program n) x v .source false e.entered).1
      ≠ .error .tooDeep) :
    ∃ turns e₂ e',
      Call.suggest (Reentry.reacting program n) x v .source false e.entered = (.ok v, e') ∧
      turns.map HookTurn.hook = PendingHook.distinct (e₁.pendingHooks.getD []) ∧
      Call.HooksRun (Reentry.reacting program n) turns e₁.takeHooks e₂ ∧
      e'.started = e.started ++ turns.filterMap HookTurn.entry? ∧
      ∀ turn ∈ turns, turn.Undisturbed program n := by
  have hr := Reentry.shadows_watched (fun _ ↦ pure ()) program n
  have hrunning : e.entered.guards.runningHooks = false := hi.runningHooks
  obtain ⟨old, w, hcarry, hresult⟩ := adopted?_eq_some hadopted
  have hcarried := unrecorded_of_adopted hadopted
  rw [Call.suggest_outermost hrunning hi.pending, Call.bind_of_ok hcarry] at hreturns ⊢
  simp only [hresult] at hreturns ⊢
  rcases hhooks : Call.attempt (Call.runHooks (Reentry.reacting program n)) e₁ with
    ⟨halt | result, e₃⟩
  · -- running hooks can only be interrupted, and then the write would be
    rw [Call.bind_of_error hhooks] at hreturns
    cases halt with
    | tooDeep => exact absurd rfl hreturns
    | failed err => exact absurd (by rw [hhooks]) (Call.unfailing_attempt _ e₁ err)
  · rw [Call.bind_of_ok hhooks]
    obtain ⟨rfl, turns, e₂, hturns, hrun, rfl⟩ := Call.hooksRun_of_runHooks hr.unfailing hhooks
    obtain ⟨-, hstarted, hundisturbed⟩ := hrun.undisturbed (hi.hooking_takeHooks hcarried)
    let w' : Call.Written := { w with result := .ok ⟨⟩ }
    let e₃ : Engine := { e₂ with guards := { e₂.guards with runningHooks := false } }
    obtain ⟨e', hclose⟩ : ∃ e', Call.close x v old w' e₃ = (.ok v, e') := ⟨_, rfl⟩
    have hclosed : Unrecorded e₃ e' := (Call.unrecorded_close w').of_ok hclose
    have hbefore : e₁.takeHooks.started = e.started := started_congr hcarried.journal
    have hafter : e'.started = e₂.started := started_congr hclosed.journal
    exact ⟨turns, e₂, e', hclose, hturns, hrun, by rw [hafter, hstarted, hbefore], hundisturbed⟩

/-- **Hooks run once, after the write, and cannot write back.** A write to an intercepted field, made
by a request at an idle engine, is a call of its own. If it is not adopted, nothing starts in the
course of it. If it is, nothing starts until it has been carried out, and then the hooks that were
collected have their turn: each field that has one of them has one turn. What starts in all is what is
recorded of these turns. In each turn nothing is being suggested to or propagating, the hook is given
what its field reports, and its own writes to intercepted fields change nothing at all. In the end no
hooks are collected.

An engine is idle between requests and wherever a handler makes one (`Driven.quiescent`,
`Call.Asks.idle`). -/
theorem Idle.write_runs_hooks (hi : e.Idle) (hx : e.variableOf? obj field = some x) (v : Value)
    (program : Program) (n : Nat)
    (hreturns : (Call.suggest (Reentry.reacting program n) x v .source false e.entered).1
      ≠ .error .tooDeep) :
    let r := Reentry.reacting program n
    let write := Call.suggest r x v .source false
    Call.writeField r obj field v e = Call.topLevel r write e ∧
      (write e.entered).2.pendingHooks = none ∧
      (e.adopted? r x v = none → (write e.entered).2.journal = e.journal) ∧
      ∀ e₁, e.adopted? r x v = some e₁ → e₁.journal = e.journal ∧
        ∃ turns e₂ e', write e.entered = (.ok v, e') ∧
          (turns.map fun turn ↦ turn.hook.key).Nodup ∧
          (∀ k, k ∈ (turns.map fun turn ↦ turn.hook.key)
            ↔ k ∈ (e₁.pendingHooks.getD []).map PendingHook.key) ∧
          Call.HooksRun r turns e₁.takeHooks e₂ ∧
          e'.started = e.started ++ turns.filterMap HookTurn.entry? ∧
          ∀ turn ∈ turns, turn.Undisturbed program n := by
  have hr := Reentry.shadows_watched (fun _ ↦ pure ()) program n
  have hwrites : Call.Within Resumes e.entered
      (Call.suggest (Reentry.reacting program n) x v .source false) :=
    (Call.mimics_suggest hr x v .source false (busy_entered e)).2
  refine ⟨Call.writeField_of_intercepted hx v, (hwrites hreturns).pending.none hi.pending,
    fun hadopted ↦ hi.unrecorded_of_not_adopted hadopted hreturns, fun e₁ hadopted ↦ ?_⟩
  obtain ⟨turns, e₂, e', hwrite, hturns, hrun, hstarted, hundisturbed⟩ :=
    hi.hooksRun_of_adopted hadopted hreturns
  have hkeys : (PendingHook.distinct (e₁.pendingHooks.getD [])).map PendingHook.key
      = turns.map fun turn ↦ turn.hook.key := by
    rw [← hturns, List.map_map]
    rfl
  refine ⟨(unrecorded_of_adopted hadopted).journal, turns, e₂, e', hwrite, ?_, fun k ↦ ?_, hrun,
    hstarted, hundisturbed⟩
  · rw [← hkeys]
    exact PendingHook.nodup_keys_distinct _
  · rw [← hkeys]
    exact PendingHook.mem_keys_distinct

/-- Two fields that make up a sum, with a hook on each of them that writes to the other one. -/
def watched : List Request := [
  .addSolver (.relaxation 1000 1e-9) false,
  .createObject [("a", .number 1), ("b", .number 2)],
  .always (.binary .eq (.binary .add (Expr.fieldOf 0 "a") (Expr.fieldOf 0 "b")) (.const (.number 3)))
    { solver := some ⟨0⟩ },
  .onWrite ⟨0⟩ "a" [.write ⟨0⟩ "b" (.number 50)],
  .onWrite ⟨0⟩ "b" [.write ⟨0⟩ "a" (.number 500)]]

/-- Hooks make the requests that they are handed over as. -/
def verbatim : Program := fun requests _ ↦ .ofList requests

/-- Each hook runs once, and neither of them writes. -/
theorem write_runs_hooks_watched : ∃ (e₁ e₂ : Engine) (turns : List HookTurn),
    ((new {}).run watched).adopted? (Reentry.reacting verbatim 9) ⟨0⟩ (.number 10) = some e₁ ∧
      Call.HooksRun (Reentry.reacting verbatim 9) turns e₁.takeHooks e₂ ∧
      (turns.map fun turn ↦ turn.hook.key).Perm [(⟨0⟩, "a"), (⟨0⟩, "b")] ∧
      (turns.filterMap HookTurn.entry?).length = 2 ∧
      (∀ turn ∈ turns, turn.Undisturbed verbatim 9) ∧
      (Call.writeField (Reentry.reacting verbatim 9) ⟨0⟩ "a" (.number 10)
        ((new {}).run watched)).2.reported? ⟨0⟩ "a" = some (.number 10) := by
  have hrun : Driven {} ((new {}).run watched) := .run .new (by decide +kernel)
  have hx : ((new {}).run watched).variableOf? ⟨0⟩ "a" = some ⟨0⟩ := by decide +kernel
  have hok : (Call.suggest (Reentry.reacting verbatim 9) ⟨0⟩ (.number 10) .source false
      ((new {}).run watched).entered).1.toOption.isSome = true := by decide +kernel
  have hbefore : ((new {}).run watched).started.length = 0 := by decide +kernel
  have hafter : (Call.suggest (Reentry.reacting verbatim 9) ⟨0⟩ (.number 10) .source false
      ((new {}).run watched).entered).2.started.length = 2 := by decide +kernel
  have hcollected : (((new {}).run watched).adopted? (Reentry.reacting verbatim 9) ⟨0⟩
      (.number 10)).map (fun e₁ ↦ (e₁.pendingHooks.getD []).map PendingHook.key)
        = some [(⟨0⟩, "b"), (⟨0⟩, "a")] := by decide +kernel
  obtain ⟨e₁, hadopted, hcollected⟩ := Option.map_eq_some_iff.1 hcollected
  obtain ⟨-, -, -, hruns⟩ := hrun.quiescent.1.idle.write_runs_hooks hx (.number 10) verbatim 9
    fun h ↦ by rw [h] at hok; cases hok
  obtain ⟨-, turns, e₂, e', hwrite, hnodup, hmem, hhooks, hstarted, hundisturbed⟩ := hruns e₁ hadopted
  refine ⟨e₁, e₂, turns, hadopted, hhooks, ?_, ?_, hundisturbed, by decide +kernel⟩
  · refine (List.perm_ext_iff_of_nodup hnodup (by decide)).2 fun k ↦ ?_
    rw [hmem, hcollected, List.mem_pair, List.mem_pair, or_comm]
  · have hall := congrArg List.length hstarted
    rw [List.length_append, hbefore, Nat.zero_add] at hall
    rw [hwrite] at hafter
    rw [← hall, hafter]

end Engine

end LiveConstraints

import LiveConstraints.Proofs.Convergence
import LiveConstraints.Proofs.Quiescence.Answering
import LiveConstraints.Proofs.Returning
/-!
# What becomes of deferred work

Failures are deferred in the middle of calls and taken up by the outermost one. While a call is in
progress, or deferred work is being taken up, the queue only grows at its end, and no handler starts
(`Engine.Queues`); so what a handler defers comes after everything that waits already. Taking up the
work is a sequence of steps (`Call.Drains`), in which each handler runs once, in the order of the
queue.

Besides its call a request does nothing that has to do with deferred work (`Call.comesDownTo_of_own`), and
one that makes no call defers nothing (`Call.standsAlone_perform`). The call is answered by its own failure
if it has one, otherwise by the failures that no handler was for, merged into one that reports each of
them, and by its value if there are none (`Engine.Driven.accounts`). So a call that fails on its own
answers for nothing that was deferred (`Engine.exists_lost_failure`).
-/

namespace LiveConstraints

open Engine

variable {α β : Type} {e e' e'' : Engine} {r : Reentry} {x : VarId} {request : Request}

/-! ### The queue -/

/-- What a handler is given, if the entry says that one started. -/
def JournalEntry.handed? : JournalEntry → Option (String × List EngineError)
  | .handler tag errors => some (tag, errors)
  | _ => none

/-- What a handler will be given, if the work is for one. -/
def Deferred.handed? : Deferred → Option (String × List EngineError)
  | .handle handler errors => some (handler.tag, errors)
  | .rethrow _ => none

/-- The failure that is for the caller, if the work is one. -/
def Deferred.rethrown? : Deferred → Option EngineError
  | .handle .. => none
  | .rethrow err => some err

namespace Engine

/-- The handlers that started, in that order, with what they were given. -/
def handed (e : Engine) : List (String × List EngineError) :=
  e.journal.toList.filterMap JournalEntry.handed?

theorem handed_push (entry : JournalEntry) : handed { e with journal := e.journal.push entry }
    = e.handed ++ entry.handed?.toList := by
  rw [handed, Array.toList_push, List.filterMap_append, handed]
  cases h : entry.handed? <;> simp [h]

/-- A call is in progress, or deferred work is being taken up. -/
def Engaged (e : Engine) : Prop := 0 < e.guards.nesting ∨ e.guards.draining = true

/-- Whether a call is in progress and whether deferred work is being taken up stay the same. -/
structure SamePhase (e e' : Engine) : Prop where
  nesting : e'.guards.nesting = e.guards.nesting
  draining : e'.guards.draining = e.guards.draining

/-- Nothing is deferred or taken up, and no handler starts. -/
structure Silent (e e' : Engine) : Prop extends SamePhase e e' where
  deferred : e'.deferred = e.deferred
  handed : e'.handed = e.handed

/-- While a call is in progress or deferred work is being taken up, the queue only grows at its end,
and no handler starts. -/
structure Queues (e e' : Engine) : Prop extends SamePhase e e' where
  grows : e.Engaged → e.deferred <+: e'.deferred ∧ e'.handed = e.handed

instance : IsPreorder Engine SamePhase where
  refl _ := ⟨rfl, rfl⟩
  trans _ _ _ h h' := ⟨h'.nesting.trans h.nesting, h'.draining.trans h.draining⟩

instance : IsPreorder Engine Silent where
  refl e := ⟨refl_of SamePhase e, rfl, rfl⟩
  trans _ _ _ h h' := ⟨trans_of SamePhase h.toSamePhase h'.toSamePhase,
    h'.deferred.trans h.deferred, h'.handed.trans h.handed⟩

theorem SamePhase.engaged (h : SamePhase e e') (he : e.Engaged) : e'.Engaged := by
  rwa [Engaged, h.nesting, h.draining]

instance : IsPreorder Engine Queues where
  refl e := ⟨refl_of SamePhase e, fun _ ↦ ⟨List.prefix_refl _, rfl⟩⟩
  trans _ _ _ h h' := by
    refine ⟨trans_of SamePhase h.toSamePhase h'.toSamePhase, fun he ↦ ?_⟩
    obtain ⟨hgrows, hhanded⟩ := h.grows he
    obtain ⟨hgrows', hhanded'⟩ := h'.grows (h.engaged he)
    exact ⟨hgrows.trans hgrows', hhanded'.trans hhanded⟩

theorem Silent.queues (h : Silent e e') : Queues e e' :=
  ⟨h.toSamePhase, fun _ ↦ ⟨h.deferred ▸ List.prefix_refl _, h.handed⟩⟩

/-- Objects, variables, constraints, solvers and the other guards are no matter. -/
theorem silent_aside (nesting : e'.guards.nesting = e.guards.nesting)
    (draining : e'.guards.draining = e.guards.draining) (deferred : e'.deferred = e.deferred)
    (journal : e'.journal = e.journal) : Silent e e' :=
  ⟨⟨nesting, draining⟩, deferred, by rw [Engine.handed, journal, Engine.handed]⟩

theorem queues_aside (nesting : e'.guards.nesting = e.guards.nesting)
    (draining : e'.guards.draining = e.guards.draining) (deferred : e'.deferred = e.deferred)
    (journal : e'.journal = e.journal) : Queues e e' :=
  (silent_aside nesting draining deferred journal).queues

instance : Managing Silent where
  aside _ _ _ _ guards _ deferred _ journal :=
    silent_aside (by rw [guards]) (by rw [guards]) deferred journal
  finds h := silent_aside (by rw [h.guards]) (by rw [h.guards]) (by rw [h.same]) (by rw [h.same])
  current h := ⟨⟨h.nesting, h.draining⟩, h.deferred, h.handed⟩
  retouch _ _ _ := silent_aside rfl rfl rfl rfl
  allocate _ := silent_aside rfl rfl rfl rfl
  release _ := silent_aside rfl rfl rfl rfl
  adjust _ _ _ := silent_aside rfl rfl rfl rfl
  introduce _ := silent_aside rfl rfl rfl rfl
  retire _ := silent_aside rfl rfl rfl rfl
  confine _ _ _ := silent_aside rfl rfl rfl rfl
  register _ := silent_aside rfl rfl rfl rfl

instance : Managing Queues where
  aside config vars constraints solvers guards generation deferred pending journal :=
    (Ordinary.aside (R := Silent) config vars constraints solvers guards generation deferred pending
      journal).queues
  finds h := (Ordinary.finds (R := Silent) h).queues
  current h := ⟨⟨h.nesting, h.draining⟩, h.grows⟩
  retouch x _ store := (Ordinary.retouch (R := Silent) x store).queues
  allocate blank := (Ordinary.allocate (R := Silent) blank).queues
  release x := (Ordinary.release (R := Silent) x).queues
  adjust id _ unmarked := (Managing.adjust (R := Silent) id unmarked).queues
  introduce unmarked := (Managing.introduce (R := Silent) unmarked).queues
  retire id := (Managing.retire (R := Silent) id).queues
  confine s _ operates := (Ordinary.confine (R := Silent) s operates).queues
  register solver := (Ordinary.register (R := Silent) solver).queues

/-- An entry that is not of a handler is added to the journal. -/
theorem queues_push {entry : JournalEntry} (h : entry.handed? = none) :
    Queues e { e with journal := e.journal.push entry } :=
  ⟨⟨rfl, rfl⟩, fun _ ↦ ⟨List.prefix_refl _, by rw [handed_push, h, Option.toList_none,
    List.append_nil]⟩⟩

instance : Reentrant Queues :=
  .of_ordinary (fun _ _ _ _ guards deferred journal ↦
      queues_aside (by rw [guards]) (by rw [guards]) deferred journal)
    (fun _ ↦ queues_aside rfl rfl rfl rfl)
    (fun _ ↦ ⟨⟨rfl, rfl⟩, fun _ ↦ ⟨List.prefix_append _ _, rfl⟩⟩) fun _ _ _ ↦ queues_push rfl

instance : Storing Queues where
  store _ _ _ := queues_aside rfl rfl rfl rfl
  raise _ _ _ := queues_aside rfl rfl rfl rfl

end Engine

namespace Step

theorem silent_modifySolver (s : SolverId) (f : Solver → Solver) :
    Within Silent e (modifySolver s f) := silent_aside rfl rfl rfl rfl

theorem silent_modifyVariable (x : VarId) (f : Variable → Variable) :
    Within Silent e (modifyVariable x f) := silent_aside rfl rfl rfl rfl

end Step

namespace Engine

instance : Pinning Silent where
  closure x := (Step.recalls_closure x).mono fun _ h ↦
    silent_aside (by rw [h.guards]) (by rw [h.guards]) (by rw [h.same]) (by rw [h.same])
  weigh _ _ _ := silent_aside rfl rfl rfl rfl
  pin _ := Step.within_pinDownstream (fun _ _ _ ↦ Step.silent_modifySolver _ _)
    fun _ ↦ Step.silent_modifyVariable _ _
  unpin _ := Step.within_unpinDownstream (fun _ _ _ ↦ Step.silent_modifySolver _ _)
    fun _ ↦ Step.silent_modifyVariable _ _
  suggesting _ h := ⟨⟨h.nesting, h.draining⟩, h.deferred, h.handed⟩

end Engine

/-! ### Calls in progress -/

/-- The ways back into the engine leave what is deferred in the queue. -/
structure Reentry.Queueing (r : Reentry) : Prop where
  suggest : ∀ {e} x v origin force, Call.Within Queues e (r.suggest x v origin force)
  recalculate : ∀ {e} id, Call.Within Queues e (r.recalculate id)
  act : ∀ {e} requests, Call.Within Queues e (r.act requests)
  unfailing : ∀ requests, Call.Unfailing (r.act requests)

namespace Call

theorem queues_runHooks (hr : r.Queueing) : Within Queues e (runHooks r) := by
  have hguards : ∀ (e₁ : Engine) (on : Bool),
      Step.Within Queues e₁ (Step.modifyGuards fun g => { g with runningHooks := on }) :=
    fun _ _ ↦ queues_aside rfl rfl rfl rfl
  refine .get_bind (.modify_bind (queues_aside rfl rfl rfl rfl) ?_)
  refine .lift_bind (hguards _ true) fun _ e₁ _ _ ↦ ?_
  refine Within.bind (.forM fun h _ e₂ _ ↦ ?_) fun _ e₂ _ _ ↦ .lift (hguards e₂ false)
  exact stays_runHook (fun _ _ ↦ hr.act) h

theorem stays_queues (hr : r.Queueing) : r.Stays Queues where
  suggest x v := hr.suggest x v .propagation false
  spread _ _ _ := stays_spread (fun x v ↦ hr.suggest x v .propagation false) hr.recalculate nofun
  runHooks _ _ := queues_runHooks hr

theorem queues_suggest (hr : r.Queueing) (x : VarId) (v : Value) (origin : Origin) (force : Bool) :
    Within Queues e (suggest r x v origin force) :=
  stays_write (stays_queues hr) (stays_reevaluate (stays_queues hr)) hr.recalculate
    (fun _ _ old ↦ hr.suggest x old .restore true)
    (fun {e₁} d ↦ (ordinary_bumpFor (R := Silent) (e := e₁) x origin d).mono fun _ ↦ Silent.queues)
    fun {e₁} s xs ↦ (Step.ordinary_unbump (R := Silent) (e := e₁) s xs).mono fun _ ↦ Silent.queues

/-! ### Taking up deferred work -/

/-- Deferred work is taken up until none is left: the work in the order in which it is taken up, and
what handlers defer meanwhile. -/
inductive Drains (r : Reentry) : Engine → List Deferred → List Deferred → Engine → Prop where
  /-- None is left. -/
  | done {e : Engine} (none : e.deferred = []) : Drains r e [] [] e
  /-- A failure is kept for the caller. -/
  | rethrow {e e' : Engine} {err : EngineError} {rest works queued : List Deferred}
      (first : e.deferred = .rethrow err :: rest)
      (later : Drains r { e with deferred := rest } works queued e') :
      Drains r e (.rethrow err :: works) queued e'
  /-- A handler runs, and what it defers is queued behind what waits already. -/
  | handle {e e₁ e' : Engine} {handler : ErrorHandler} {errors : List EngineError}
      {rest more works queued : List Deferred} (first : e.deferred = .handle handler errors :: rest)
      (runs : handle r handler errors { e with deferred := rest } = (.ok ⟨⟩, e₁))
      (grows : e₁.deferred = rest ++ more)
      (handed : e₁.handed = e.handed ++ [(handler.tag, errors)])
      (later : Drains r e₁ works queued e') :
      Drains r e (.handle handler errors :: works) (more ++ queued) e'

namespace Drains

variable {works queued : List Deferred}

/-- What is taken up is what waits, and then what is deferred meanwhile, in that order. -/
theorem works_eq (h : Drains r e works queued e') : works = e.deferred ++ queued := by
  induction h with
  | done none => rw [none]; rfl
  | rethrow first _ ih => rw [first, List.cons_append, ih]
  | handle first _ grows _ _ ih => rw [first, List.cons_append, ih, grows, List.append_assoc]

/-- Each handler is handed its failures once, in the order of the queue. -/
theorem handed_eq (h : Drains r e works queued e') :
    e'.handed = e.handed ++ works.filterMap Deferred.handed? := by
  induction h with
  | done => exact (List.append_nil _).symm
  | rethrow _ _ ih => exact ih
  | handle _ _ _ handed _ ih => rw [ih, handed, List.append_assoc]; rfl

theorem deferred_eq (h : Drains r e works queued e') : e'.deferred = [] := by
  induction h with
  | done none => exact none
  | rethrow _ _ ih => exact ih
  | handle _ _ _ _ _ ih => exact ih

end Drains

/-- A handler starts, and does what it does at an engine that is engaged. -/
theorem of_handle {handler : ErrorHandler} {errors : List EngineError} (hr : r.Queueing)
    (he : e.Engaged) (hrun : handle r handler errors e = (.ok ⟨⟩, e')) :
    e.deferred <+: e'.deferred ∧ e'.handed = e.handed ++ [(handler.tag, errors)] ∧
      SamePhase e e' := by
  obtain ⟨_, e₁, hrecord, hact⟩ := of_bind_ok hrun
  cases hrecord
  have hacts := (hr.act handler.actions).of_ok hact
  obtain ⟨hgrows, hhanded⟩ := hacts.grows he
  exact ⟨hgrows, hhanded.trans (handed_push _), hacts.nesting, hacts.draining⟩

/-- **Draining** takes up what waits and what is deferred meanwhile. -/
theorem drains_of_drain {n : Nat} {failures rest : List EngineError} (hr : r.Queueing)
    (he : e.Engaged) (hrun : drain r n failures e = (.ok rest, e')) :
    ∃ works queued, Drains r e works queued e' ∧
      rest = failures ++ works.filterMap Deferred.rethrown? ∧ SamePhase e e' := by
  induction n generalizing e failures with
  | zero =>
    unfold drain at hrun
    rw [get_run] at hrun
    split at hrun
    · next hempty =>
      cases hrun
      exact ⟨[], [], .done (List.isEmpty_iff.1 hempty), (List.append_nil _).symm, refl_of SamePhase _⟩
    · cases hrun
  | succ n ih =>
    obtain ⟨work, e₁, htake, hrun⟩ := of_bind_ok hrun
    rw [takeDeferred_eq] at htake
    split at htake
    · next hnone =>
      cases htake
      cases hrun
      exact ⟨[], [], .done hnone, (List.append_nil _).symm, refl_of SamePhase _⟩
    · next first later hfirst =>
      cases htake
      cases first with
      | rethrow err =>
        obtain ⟨works, queued, hdrains, hrest, hphase⟩ := ih (e := { e with deferred := later }) he hrun
        refine ⟨_, queued, .rethrow hfirst hdrains, ?_, ⟨hphase.nesting, hphase.draining⟩⟩
        rw [hrest, List.append_assoc]
        rfl
      | handle handler errors =>
        obtain ⟨_, e₂, hhandle, hrun⟩ := of_bind_ok hrun
        obtain ⟨⟨more, hmore⟩, hhanded, hphase⟩ := of_handle (e := { e with deferred := later }) hr he hhandle
        obtain ⟨works, queued, hdrains, hrest, hphase'⟩ := ih (hphase.engaged he) hrun
        refine ⟨_, _, .handle hfirst hhandle hmore.symm hhanded hdrains, hrest, ?_⟩
        exact ⟨hphase'.nesting.trans hphase.nesting, hphase'.draining.trans hphase.draining⟩

end Call

/-! ### Merging failures -/

namespace EngineError

/-- The failures that a failure stands for. -/
def flattened : EngineError → List EngineError
  | .noSolver errors => errors
  | err => [err]

/-- The failure is a list. -/
def isNoSolver : EngineError → Bool
  | .noSolver _ => true
  | _ => false

/-- A failure is another one, or lists what the other one stands for. -/
def Reports (err failure : EngineError) : Prop :=
  err = failure ∨ ∃ errors, err = .noSolver errors ∧ ∀ inner ∈ failure.flattened, inner ∈ errors

/-- What several failures are merged into reports each of them. -/
theorem exists_merge?_of_mem {failures : List EngineError} {failure : EngineError}
    (hmem : failure ∈ failures) : ∃ err, merge? failures = some err ∧ err.Reports failure := by
  match failures with
  | [only] => exact ⟨only, rfl, .inl (List.mem_singleton.1 hmem).symm⟩
  | first :: second :: rest =>
    refine ⟨_, rfl, .inr ⟨_, rfl, fun inner hinner ↦ List.mem_flatMap.2 ⟨failure, hmem, ?_⟩⟩⟩
    cases failure <;> exact hinner

end EngineError

/-! ### Calls of their own -/

/-- What an outermost call comes to. -/
structure Account (α : Type) where
  /-- How the work of the call itself ended. -/
  own : Except EngineError α
  /-- The engine that the work of the call left. -/
  left : Engine
  /-- The deferred work that was taken up, in that order. -/
  works : List Deferred
  /-- What was deferred while that was done. -/
  queued : List Deferred

/-- A call is answered by its own failure, then by what is left to the caller of what was deferred. -/
def Account.outcome (a : Account α) : Except Halt α :=
  match a.own, EngineError.merge? (a.works.filterMap Deferred.rethrown?) with
  | .error err, _ => .error (.failed err)
  | .ok _, some err => .error (.failed err)
  | .ok v, none => .ok v

/-- If the call does not fail on its own, every failure that is left to the caller reaches it. -/
theorem Account.reports {a : Account α} {v : α} {failure : EngineError} (hown : a.own = .ok v)
    (hmem : .rethrow failure ∈ a.works) :
    ∃ err, a.outcome = .error (.failed err) ∧ err.Reports failure := by
  have hfailure : failure ∈ a.works.filterMap Deferred.rethrown? :=
    List.mem_filterMap.2 ⟨_, hmem, rfl⟩
  obtain ⟨err, hmerge, hreports⟩ := EngineError.exists_merge?_of_mem hfailure
  exact ⟨err, by rw [Account.outcome, hown, hmerge], hreports⟩

namespace Call

/-- An outermost call comes to an account: its own work, and then the deferred work, which is taken up
when no call is in progress any more. -/
structure Accounts (r : Reentry) (call : Call α) (e : Engine) (a : Account α) (e' : Engine) :
    Prop where
  runs : attempt call { e with guards := { e.guards with nesting := e.guards.nesting + 1 } }
    = (.ok a.own, a.left)
  handed : a.left.handed = e.handed
  drains : ∃ e₂, Drains r { a.left with guards :=
      { a.left.guards with nesting := a.left.guards.nesting - 1, draining := true } }
    a.works a.queued e₂ ∧ e' = { e₂ with guards := { e₂.guards with draining := false } }

/-- Settling an engine at which no call is in progress. -/
theorem drains_of_settle {settled : Except EngineError PUnit} (hr : r.Queueing)
    (hnesting : e.guards.nesting = 0) (hdraining : e.guards.draining = false)
    (hrun : attempt (settle r) e = (.ok settled, e')) : ∃ works queued e₂,
    Drains r { e with guards := { e.guards with draining := true } } works queued e₂ ∧
      e' = { e₂ with guards := { e₂.guards with draining := false } } ∧ SamePhase e e' ∧
      settled = match EngineError.merge? (works.filterMap Deferred.rethrown?) with
        | some err => .error err
        | none => .ok ⟨⟩ := by
  have hguard : (decide (0 < e.guards.nesting) || e.guards.draining) = false := by
    rw [hnesting, hdraining]
    rfl
  have hsettle : settle r e = (do
      Step.modifyGuards fun g => { g with draining := true }
      let failures ← drain r r.patience []
      Step.modifyGuards fun g => { g with draining := false }
      match EngineError.merge? failures with
      | some err => fail err
      | none => return () : Call Unit) e := by
    unfold settle
    rw [get_run, hguard]
    rfl
  rw [attempt, hsettle] at hrun
  rcases hdrain : drain r r.patience [] { e with guards := { e.guards with draining := true } }
    with ⟨(err | -) | failures, e₂⟩
  · exact absurd (by rw [hdrain]) (unfailing_drain hr.unfailing r.patience [] _ err)
  · rw [bracket_of_error hdrain] at hrun
    cases hrun
  · rw [bracket_of_ok hdrain] at hrun
    obtain ⟨works, queued, hdrains, hfailures, hphase⟩ := drains_of_drain hr (.inr rfl) hdrain
    rw [List.nil_append] at hfailures
    rw [hfailures] at hrun
    have hphase' : SamePhase e { e₂ with guards := { e₂.guards with draining := false } } :=
      ⟨hphase.nesting, hdraining.symm⟩
    cases hmerge : EngineError.merge? (works.filterMap Deferred.rethrown?) with
    | none =>
      rw [hmerge] at hrun
      cases hrun
      exact ⟨works, queued, e₂, hdrains, rfl, hphase', by rw [hmerge]⟩
    | some err =>
      rw [hmerge] at hrun
      cases hrun
      exact ⟨works, queued, e₂, hdrains, rfl, hphase', by rw [hmerge]⟩

/-- **An outermost call** comes to an account, by which it is answered. -/
theorem accounts_topLevel {call : Call α} (hr : r.Queueing) (hcall : ∀ {e}, Within Queues e call)
    (hnesting : e.guards.nesting = 0) (hdraining : e.guards.draining = false)
    (hreturns : (topLevel r call e).1 ≠ .error .tooDeep) :
    ∃ a : Account α, Accounts r call e a (topLevel r call e).2 ∧
      (topLevel r call e).1 = a.outcome := by
  let raised : Engine := { e with guards := { e.guards with nesting := e.guards.nesting + 1 } }
  rcases hown : attempt call raised with ⟨(err | -) | own, left⟩
  · exact absurd (by rw [hown]) (attempt_ne_failed call raised err)
  · exact absurd (by rw [topLevel, bracket_of_error hown]) hreturns
  let lowered : Engine := { left with guards := { left.guards with nesting := left.guards.nesting - 1 } }
  have hqueues : Queues raised left := hcall.attempt.of_ok hown
  have hlowered : lowered.guards.nesting = 0 := by
    show left.guards.nesting - 1 = 0
    rw [hqueues.nesting]
    exact hnesting
  have hrest : topLevel r call e = (do
      let settled ← attempt (settle r)
      let a ← ofExcept own
      ofExcept settled
      return a : Call α) lowered := bracket_of_ok hown
  rcases hsettle : attempt (settle r) lowered with ⟨(err | -) | settled, e₂⟩
  · exact absurd (by rw [hsettle]) (attempt_ne_failed (settle r) lowered err)
  · exact absurd (by rw [hrest, bind_of_error hsettle]) hreturns
  obtain ⟨works, queued, e₃, hdrains, he₂, -, rfl⟩ := drains_of_settle (e := lowered) hr
    hlowered (hqueues.draining.trans hdraining) hsettle
  rw [hrest, bind_of_ok hsettle]
  let account : Account α := ⟨own, left, works, queued⟩
  have haccounts : Accounts r call e account e₂ :=
    ⟨hown, (hqueues.grows (.inl (Nat.succ_pos _))).2, e₃, hdrains, he₂⟩
  cases own with
  | error err => exact ⟨account, haccounts, rfl⟩
  | ok v =>
    cases hmerge : EngineError.merge? (works.filterMap Deferred.rethrown?) with
    | none =>
      refine ⟨account, haccounts, ?_⟩
      show _ = Account.outcome ⟨.ok v, left, works, queued⟩
      rw [Account.outcome, hmerge]
      rfl
    | some err =>
      refine ⟨account, haccounts, ?_⟩
      show _ = Account.outcome ⟨.ok v, left, works, queued⟩
      rw [Account.outcome, hmerge]
      rfl

theorem queues_settle (hr : r.Queueing) : Within Queues e (settle r) := by
  intro hreturns
  by_cases he : e.Engaged
  · have hnothing : settle r e = (.ok ⟨⟩, e) := by
      unfold settle
      rw [get_run, if_pos (by simpa [Engaged] using he)]
      rfl
    rw [hnothing]
    exact refl_of Queues e
  · have hnesting : e.guards.nesting = 0 := Nat.eq_zero_of_not_pos fun h ↦ he (.inl h)
    have hdraining : e.guards.draining = false := Bool.eq_false_iff.2 fun h ↦ he (.inr h)
    obtain ⟨settled, hsettle⟩ : ∃ settled, attempt (settle r) e = (.ok settled, (settle r e).2) := by
      rcases hrun : settle r e with ⟨(err | -) | v, e₁⟩
      · exact ⟨.error err, by rw [attempt, hrun]⟩
      · exact absurd (by rw [hrun]) hreturns
      · exact ⟨.ok v, by rw [attempt, hrun]⟩
    obtain ⟨_, _, _, -, -, hphase, -⟩ := drains_of_settle hr hnesting hdraining hsettle
    exact ⟨hphase, fun h ↦ absurd h he⟩

/-- A call that is not the outermost one leaves its deferred work in the queue. -/
theorem queues_topLevel {call : Call α} (hr : r.Queueing) (hcall : ∀ {e}, Within Queues e call) :
    Within Queues e (topLevel r call) :=
  stays_topLevel (fun h ↦ ⟨⟨by rw [h.nesting]; rfl, h.draining⟩, fun _ ↦ h.grows (.inl (Nat.succ_pos _))⟩)
    hcall (queues_settle hr)

/-! ### Requests -/

theorem silent_solvers (s : SolverId) (f : Solver → Solver) :
    Silent e { e with solvers := e.solvers.modify s f } := silent_aside rfl rfl rfl rfl

/-- A request leaves what is deferred in the queue. -/
theorem queues_perform (hr : r.Queueing) (request : Request) :
    Within Queues e (perform r request) :=
  stays_perform (stays_queues hr)
    (fun x v ↦ queues_topLevel hr (queues_suggest hr x v .source false))
    (fun hcall ↦ queues_topLevel hr hcall)
    (fun obj field on _ ↦
      (within_setReadonly (fun _ _ _ ↦ silent_solvers _ _) obj field on).mono fun _ ↦ Silent.queues)
    fun s weight _ ↦ (ordinary_setWeight (R := Silent) s weight).mono fun _ ↦ Silent.queues

/-- The call that a request makes at an engine. -/
inductive Own (r : Reentry) (e : Engine) : Request → {α : Type} → Call α → Prop where
  /-- A write to a field that is intercepted. -/
  | write {obj : ObjectId} {field : String} {x : VarId} (hx : e.variableOf? obj field = some x)
      (v : Value) : Own r e (.write obj field v) (suggest r x v .source false)
  /-- A predicate is maintained. -/
  | always (predicate : Expr) (options : ConstraintOptions) :
      Own r e (.always predicate options) (maintain r predicate options)
  /-- A predicate is maintained, to be left alone afterwards. -/
  | once (predicate : Expr) (options : ConstraintOptions) :
      Own r e (.once predicate options) (maintain r predicate options)
  /-- Stays are attached. -/
  | stay (predicate : Expr) (options : ConstraintOptions) :
      Own r e (.stay predicate options) (holdStays predicate options)
  /-- A constraint is switched on. -/
  | enable (id : ConstraintId) : Own r e (.enable id) (enable r id false)
  /-- A constraint that is on is switched on again, at another priority. -/
  | setPriority {id : ConstraintId} {c : Constraint} (hc : e.constraints.get? id = some c)
      (henabled : c.enabled = true) (priority : Priority) :
      Own r e (.setPriority id priority) (enable r id false)
  /-- A solver is selected anew. -/
  | reevaluate (id : ConstraintId) : Own r e (.reevaluate id) (reevaluate r id)
  /-- A batch of the right size is assigned in a session that is open. -/
  | updateEdit {index : Option Nat} {session : EditSession} {values : List Value}
      (hsession : e.session? index = some session) (hlength : values.length = session.size) :
      Own r e (.updateEdit index values) (applyBatch r session values)

theorem queues_of_own {call : Call α} (hr : r.Queueing) (h : Own r e request call) :
    Within Queues e' call := by
  cases h with
  | write hx v => exact queues_suggest hr _ v .source false
  | always predicate options => exact stays_maintain (stays_queues hr) predicate options
  | once predicate options => exact stays_maintain (stays_queues hr) predicate options
  | stay predicate options => exact stays_holdStays predicate options
  | enable id => exact stays_enable (stays_queues hr) id false
  | setPriority hc henabled priority => exact stays_enable (stays_queues hr) _ false
  | reevaluate id => exact stays_reevaluate (stays_queues hr) id
  | updateEdit hsession hlength => exact stays_applyBatch (stays_queues hr) _ _

/-- A computation that returns and stays within a relation. -/
def Spares (R : Engine → Engine → Prop) (e : Engine) (m : Call α) : Prop :=
  (m e).1 ≠ .error .tooDeep ∧ R e (m e).2

theorem Returns.spares {R : Engine → Engine → Prop} {m : Call α} (hm : Returns m)
    (h : Within R e m) : Spares R e m := ⟨hm e, h (hm e)⟩

/-- A request comes down to a call: what is done before and after it returns and stays within a
relation. -/
def ComesDownTo (R : Engine → Engine → Prop) (r : Reentry) (e : Engine) (m : Call Answer)
    (call : Call α) : Prop :=
  ∃ (start : Engine) (answer : α → Call Answer), R e start ∧ m e = (topLevel r call >>= answer) start ∧
    ∀ v e', Spares R e' (answer v)

/-- A request makes no call: it returns, stays within a relation, and comes to the same whatever the ways
back into the engine are. -/
def StandsAlone (R : Engine → Engine → Prop) (r : Reentry) (e : Engine) (request : Request) : Prop :=
  Spares R e (perform r request) ∧ ∀ r', perform r' request e = perform r request e

section Making

variable {R : Engine → Engine → Prop} [Managing R]

/-- A constraint that is switched off and given another priority is still there to be switched on. -/
theorem setPriority_of_enabled {id : ConstraintId} {c : Constraint}
    (hc : e.constraints.get? id = some c) (henabled : c.enabled = true) (r : Reentry)
    (priority : Priority) : ∃ start, R e start ∧
      setPriority r id priority e = topLevel r (enable r id false) start := by
  have hlookup := constraintAt_eq id e
  rw [hc] at hlookup
  have hdisable : R e (Step.disable id e).2 := Step.ordinary_disable id
  have hshape : SameShape e (Step.disable id e).2 := Step.sameShape_disable id
  have hspans := hshape.spans id
  rw [hc, Option.map_some] at hspans
  obtain ⟨c', hc', -⟩ := Option.map_eq_some_iff.1 hspans
  have hchange := changeConstraint_eq hc' fun c => { c with priority }
  have hwithin : Within R (Step.disable id e).2 (changeConstraint id fun c => { c with priority }) :=
    ordinary_changeConstraint fun _ h ↦ h
  refine ⟨_, trans_of R hdisable (hwithin.of_ok hchange), ?_⟩
  unfold setPriority
  rw [bind_of_ok hlookup, henabled]
  show (do
    Step.disable id
    changeConstraint id fun c => { c with priority }
    switchOn r id : Call Unit) e = _
  exact (bind_of_ok (lift_run _ _)).trans (bind_of_ok hchange)

/-- **A request comes down to the call that it makes.** -/
theorem comesDownTo_of_own {call : Call α} (h : Own r e request call) :
    ComesDownTo R r e (perform r request) call := by
  have hpure : ∀ (a : Answer) (e₁ : Engine), Spares R e₁ (pure a) :=
    fun a _ ↦ (Returns.pure a).spares (.pure a)
  cases h with
  | write hx v =>
    exact ⟨e, _, refl_of R e, bind_run_congr (writeField_of_intercepted hx v) _, fun _ ↦ hpure _⟩
  | always predicate options => exact ⟨e, _, refl_of R e, rfl, fun _ ↦ hpure _⟩
  | once predicate options =>
    refine ⟨e, _, refl_of R e, congrFun (bind_assoc ..) e, fun id e₁ ↦ ?_⟩
    cases id with
    | none => exact hpure _ e₁
    | some id =>
      show Spares R e₁ ((Step.disable id >>= _) >>= _)
      rw [bind_assoc]
      exact (Returns.lift_bind fun _ ↦ .pure _).spares
        (.lift_bind (Step.ordinary_disable id) fun _ _ _ _ ↦ .pure _)
  | stay predicate options => exact ⟨e, _, refl_of R e, rfl, fun _ ↦ hpure _⟩
  | enable id => exact ⟨e, _, refl_of R e, rfl, fun _ ↦ hpure _⟩
  | setPriority hc henabled priority =>
    obtain ⟨start, hstart, heq⟩ := setPriority_of_enabled (R := R) hc henabled r priority
    exact ⟨start, _, hstart, bind_run_congr heq _, fun _ ↦ hpure _⟩
  | reevaluate id => exact ⟨e, _, refl_of R e, rfl, fun _ ↦ hpure _⟩
  | @updateEdit index session values hsession hlength =>
    refine ⟨e, fun _ ↦ pure .done, refl_of R e, ?_, fun _ ↦ hpure _⟩
    refine (withSession_of_some hsession).trans ?_
    rw [updateEdit, if_neg (not_not_intro hlength)]

theorem Returns.spares_bind {m : Call α} {f : α → Answer} (hm : Returns m) (h : Within R e m) :
    Spares R e (m >>= fun a ↦ Pure.pure (f a)) := (hm.bind fun _ ↦ .pure _).spares h.answered

/-- A write to a field that is not intercepted. -/
theorem standsAlone_write {obj : ObjectId} {field : String} (hx : e.variableOf? obj field = none)
    (v : Value) : StandsAlone R r e (.write obj field v) := by
  have hcreate := gives_slotOrCreate (e := e) obj field
  have hwrite : ∀ r', perform r' (.write obj field v) e
      = (slotOrCreate obj field >>= fun _ ↦ setSlot obj field (.plain v) >>= fun _ ↦
          pure (.value v)) e := by
    intro r'
    show ((slotOrCreate obj field >>= _) >>= _) e = _
    rw [bind_assoc]
    rcases hrun : slotOrCreate obj field e with ⟨halt | slot, e₁⟩
    · rw [bind_of_error hrun, bind_of_error hrun]
    · rw [bind_of_ok hrun, bind_of_ok hrun]
      cases slot with
      | plain _ => exact congrFun (bind_assoc (setSlot obj field (.plain v)) _ _) e₁
      | intercepted x =>
        have hvariable := hcreate.result _ e₁ hrun
        rw [(hcreate.within.of_ok hrun).slots, hx] at hvariable
        cases hvariable
  refine ⟨?_, fun r' ↦ (hwrite r').trans (hwrite r).symm⟩
  rw [Spares, hwrite r]
  exact ((returns_slotOrCreate obj field).bind fun _ ↦ (returns_setSlot _ _ _).bind fun _ ↦
    .pure _).spares ((ordinary_slotOrCreate obj field).bind fun _ _ _ _ ↦
      (ordinary_setSlot _ _ _).bind fun _ _ _ _ ↦ .pure _)

/-- The priority of a constraint that is off, or gone. -/
theorem standsAlone_setPriority {id : ConstraintId}
    (hoff : ∀ c, e.constraints.get? id = some c → c.enabled = false) (priority : Priority) :
    StandsAlone R r e (.setPriority id priority) := by
  have hset : ∀ r', perform r' (.setPriority id priority) e = (do
      let _ ← constraintAt id
      changeConstraint id fun c => { c with priority }
      return .done : Call Answer) e := by
    intro r'
    have hlookup := constraintAt_eq id e
    show ((constraintAt id >>= _) >>= _) e = _
    rw [bind_assoc]
    cases hc : e.constraints.get? id with
    | none =>
      rw [hc] at hlookup
      rw [bind_of_error hlookup, bind_of_error hlookup]
    | some c =>
      rw [hc] at hlookup
      rw [bind_of_ok hlookup, bind_of_ok hlookup, hoff c hc]
      exact congrFun (bind_assoc (changeConstraint id fun c => { c with priority }) _ _) e
  have hchange : ∀ e₁, Within R e₁ (changeConstraint id fun c => { c with priority }) :=
    fun _ ↦ ordinary_changeConstraint fun _ h ↦ h
  refine ⟨?_, fun r' ↦ (hset r').trans (hset r).symm⟩
  rw [Spares, hset r]
  exact ((returns_constraintAt id).bind fun _ ↦ (returns_changeConstraint id _).bind fun _ ↦
    .pure _).spares (.constraintAt_bind fun _ _ ↦ (hchange e).bind fun _ _ _ _ ↦ .pure _)

/-- A batch for a session that is not open, or of the wrong size. -/
theorem standsAlone_updateEdit {index : Option Nat} {values : List Value}
    (hmismatch : ∀ session, e.session? index = some session → values.length ≠ session.size) :
    StandsAlone R r e (.updateEdit index values) := by
  cases hsession : e.session? index with
  | none =>
    have hrun : ∀ r', perform r' (.updateEdit index values) e = (.ok .noSession, e) :=
      fun _ ↦ withSession_of_none hsession
    refine ⟨?_, fun r' ↦ (hrun r').trans (hrun r).symm⟩
    rw [Spares, hrun r]
    exact ⟨nofun, refl_of R e⟩
  | some session =>
    have hrun : ∀ r', perform r' (.updateEdit index values) e
        = (.error (.failed (.mismatch (.batchSize session.size values.length))), e) := by
      intro r'
      refine (withSession_of_some hsession).trans ?_
      rw [updateEdit, if_pos (hmismatch session hsession)]
      rfl
    refine ⟨?_, fun r' ↦ (hrun r').trans (hrun r).symm⟩
    rw [Spares, hrun r]
    exact ⟨by simp, refl_of R e⟩

variable [Pinning R]

/-- **A request that makes no call** does what an ordinary relation stays within that takes no notice of
what solvers may assign, and has no use for the ways back into the engine. -/
theorem standsAlone_perform
    (hflags : ∀ {e : Engine} (s : SolverId) (f : Solver → Solver),
      R e { e with solvers := e.solvers.modify s f })
    (hnone : ∀ (α : Type) (call : Call α), ¬ Own r e request call) : StandsAlone R r e request := by
  have haside : ∀ {e₁ : Engine}, e₁.config = e.config → e₁.vars = e.vars →
      e₁.constraints = e.constraints → e₁.solvers = e.solvers → e₁.guards = e.guards →
      e₁.deferred = e.deferred → e₁.pendingHooks = e.pendingHooks → e₁.journal = e.journal →
      R e e₁ := fun config vars constraints solvers guards deferred pending journal ↦
    Ordinary.aside config vars constraints solvers (by rw [guards]) (by rw [guards]) deferred pending journal
  have hpure : ∀ (a : Answer) (e₁ : Engine), Spares R e₁ (pure a) :=
    fun a _ ↦ (Returns.pure a).spares (.pure a)
  have hmodify : ∀ {g : Engine → Engine} {a : Answer}, R e (g e) → Spares R e (do modify g; return a) :=
    fun {g a} h ↦ ⟨Returns.pure a (g e), h⟩
  cases request with
  | write obj field v =>
    exact standsAlone_write (Option.eq_none_iff_forall_ne_some.2 fun x hx ↦ hnone _ _ (.write hx v)) v
  | always predicate options => exact absurd (.always predicate options) (hnone _ _)
  | once predicate options => exact absurd (.once predicate options) (hnone _ _)
  | stay predicate options => exact absurd (.stay predicate options) (hnone _ _)
  | enable id => exact absurd (.enable id) (hnone _ _)
  | setPriority id priority =>
    refine standsAlone_setPriority (fun c hc ↦ ?_) priority
    exact Bool.eq_false_iff.2 fun henabled ↦ hnone _ _ (.setPriority hc henabled priority)
  | reevaluate id => exact absurd (.reevaluate id) (hnone _ _)
  | updateEdit index values =>
    exact standsAlone_updateEdit fun session hsession hlength ↦ hnone _ _ (.updateEdit hsession hlength)
  | createObject fields =>
    exact ⟨(returns_createObject fields).spares_bind (ordinary_createObject fields), fun _ ↦ rfl⟩
  | read obj field =>
    exact ⟨(returns_readField obj field).spares_bind (reads_readField obj field), fun _ ↦ rfl⟩
  | fieldNames obj =>
    exact ⟨(returns_fieldNames obj).spares_bind (within_fieldNames obj), fun _ ↦ rfl⟩
  | isConstrained obj field => exact ⟨hpure _ e, fun _ ↦ rfl⟩
  | disable id => exact ⟨(Returns.lift _).spares_bind (.lift (Step.ordinary_disable id)), fun _ ↦ rfl⟩
  | setInterval id interval =>
    exact ⟨(returns_changeConstraint id _).spares_bind (ordinary_changeConstraint fun _ h ↦ h), fun _ ↦ rfl⟩
  | listConstraints => exact ⟨hpure _ e, fun _ ↦ rfl⟩
  | describe id =>
    exact ⟨((returns_constraintAt id).bind fun _ ↦ .pure _).spares
      (.constraintAt_bind fun _ _ ↦ .pure _), fun _ ↦ rfl⟩
  | unconstrain obj field =>
    exact ⟨(returns_unconstrain obj field).spares_bind (ordinary_unconstrain obj field), fun _ ↦ rfl⟩
  | unconstrainAll obj =>
    exact ⟨(returns_unconstrainAll obj).spares_bind (ordinary_unconstrainAll obj), fun _ ↦ rfl⟩
  | setReadonly obj field on =>
    exact ⟨(returns_setReadonly obj field on).spares_bind
      (within_setReadonly (fun _ _ _ ↦ hflags _ _) obj field on), fun _ ↦ rfl⟩
  | defining obj field =>
    exact ⟨(returns_definingOf obj field).spares_bind (reads_definingOf obj field), fun _ ↦ rfl⟩
  | onWrite obj field actions =>
    exact ⟨(returns_onWrite obj field actions).spares_bind (ordinary_onWrite obj field actions),
      fun _ ↦ rfl⟩
  | openEdit obj fields =>
    exact ⟨(returns_openEdit obj fields).spares_bind (operating_openEdit obj fields), fun _ ↦ rfl⟩
  | finishEdit session =>
    refine ⟨?_, fun _ ↦ rfl⟩
    cases hsession : e.session? session with
    | none =>
      have hrun : perform r (.finishEdit session) e = (.ok .noSession, e) := withSession_of_none hsession
      rw [Spares, hrun]
      exact ⟨nofun, refl_of R e⟩
    | some s =>
      have hrun : perform r (.finishEdit session) e = (do
          modify fun e ↦ { e with sessions := e.sessions.setIfInBounds (e.sessionIndex session) none }
          finishEdit s
          return .done : Call Answer) e := withSession_of_some hsession
      rw [Spares, hrun]
      exact (Returns.modify_bind ((returns_finishEdit _).bind fun _ ↦ .pure _)).spares
        (.modify_bind (haside rfl rfl rfl rfl rfl rfl rfl rfl)
          ((operating_finishEdit _).bind fun _ _ _ _ ↦ .pure _))
  | addSolver solver registerOnly =>
    have hregister : R e (e.registerSolver solver).2 := Ordinary.register solver
    have hdefault : R (e.registerSolver solver).2 (e.addSolver solver).2 :=
      Ordinary.aside rfl rfl rfl rfl rfl (Nat.le_refl _) rfl rfl rfl
    refine ⟨?_, fun _ ↦ rfl⟩
    cases registerOnly with
    | true => exact ⟨Returns.pure _ _, hregister⟩
    | false => exact ⟨Returns.pure _ _, trans_of R hregister hdefault⟩
  | setDefaultSolvers solvers => exact ⟨hmodify (haside rfl rfl rfl rfl rfl rfl rfl rfl), fun _ ↦ rfl⟩
  | setDefaultSolver solver => exact ⟨hmodify (haside rfl rfl rfl rfl rfl rfl rfl rfl), fun _ ↦ rfl⟩
  | setWeight s weight =>
    exact ⟨(returns_setWeight s weight).spares_bind (ordinary_setWeight s weight), fun _ ↦ rfl⟩
  | solverByName name => exact ⟨hpure _ e, fun _ ↦ rfl⟩
  | stats s =>
    exact ⟨((returns_solverAt s).bind fun _ ↦ .pure _).spares (.solverAt_bind fun _ _ ↦ .pure _),
      fun _ ↦ rfl⟩
  | capabilities s =>
    exact ⟨((returns_solverAt s).bind fun _ ↦ .pure _).spares (.solverAt_bind fun _ _ ↦ .pure _),
      fun _ ↦ rfl⟩
  | inspect predicate context =>
    exact ⟨(returns_inspect context predicate).spares_bind (reads_inspect context predicate), fun _ ↦ rfl⟩
  | dump => exact ⟨(Returns.lift _).spares_bind (.lift Call.reads_dump), fun _ ↦ rfl⟩

end Making

end Call

/-- Whatever hooks and handlers do, the ways back into the engine leave what is deferred in the
queue. -/
theorem Reentry.queueing_reacting (program : Program) (n : Nat) : (reacting program n).Queueing := by
  induction n with
  | zero =>
    exact {
      suggest := fun _ _ _ _ ↦ .tooDeep
      recalculate := fun _ ↦ .tooDeep
      act := fun _ ↦ .tooDeep
      unfailing := fun _ ↦ .tooDeep }
  | succ n ih =>
    exact {
      suggest := fun x v origin force ↦ Call.queues_suggest ih x v origin force
      recalculate := fun id ↦ Call.stays_recalculate (Call.stays_queues ih) Reentrant.reroute
      act := fun {e} requests ↦ Call.stays_follow (fun {e₁ e₂ request outcome} hrun ↦
        trans_of Queues ((Call.queues_perform ih request).attempt.of_ok hrun) (queues_push rfl))
          (program requests e)
      unfailing := fun requests e ↦ Call.unfailing_follow _ (program requests e) e }

namespace Engine

variable {config : Setup} {program : Program} {n : Nat}

/-- **Deferred work is accounted for.** Everything that is deferred in the course of the call that a
request makes is taken up when the call is over, in the order of the queue, what handlers defer included;
each handler runs once and no other handler starts. The failure of the call's own work is the answer. If
there is none, each failure that is left to the caller reaches it, as the answer or in the list that the
answer is. A request that makes no call defers nothing: it comes to the same without any way back into the
engine, where nothing that is deferred could be taken up. -/
theorem Driven.accounts (hdriven : Driven config e)
    (hreturns : (Call.perform (Reentry.reacting program n) request e).1 ≠ .error .tooDeep) :
    (∀ (α : Type) (call : Call α), Call.Own (Reentry.reacting program n) e request call →
      ∃ (start settled : Engine) (a : Account α), Silent e start ∧
      Call.Accounts (Reentry.reacting program n) call start a settled ∧
      a.works = a.left.deferred ++ a.queued ∧
      Silent settled (Call.perform (Reentry.reacting program n) request e).2 ∧
      settled.deferred = [] ∧
      settled.handed = e.handed ++ a.works.filterMap Deferred.handed? ∧
      (∀ err, a.own = .error err →
        (Call.perform (Reentry.reacting program n) request e).1 = .error (.failed err)) ∧
      ∀ v failure, a.own = .ok v → .rethrow failure ∈ a.works → ∃ err,
        (Call.perform (Reentry.reacting program n) request e).1 = .error (.failed err) ∧
          err.Reports failure) ∧
    ((∀ (α : Type) (call : Call α), ¬ Call.Own (Reentry.reacting program n) e request call) →
      Silent e (Call.perform (Reentry.reacting program n) request e).2 ∧
      Call.perform Reentry.exhausted request e
        = Call.perform (Reentry.reacting program n) request e) := by
  have hr := Reentry.queueing_reacting program n
  have hrest := hdriven.atRest
  refine ⟨fun α call hown ↦ ?_, fun hnone ↦ ?_⟩
  case refine_2 =>
    obtain ⟨hspares, hsame⟩ := Call.standsAlone_perform Call.silent_solvers hnone
    exact ⟨hspares.2, hsame _⟩
  obtain ⟨start, answer, hstart, heq, hanswer⟩ := Call.comesDownTo_of_own (R := Silent) hown
  rw [heq] at hreturns ⊢
  have hnesting : start.guards.nesting = 0 :=
    hstart.nesting.trans (congrArg Guards.nesting hrest.guards)
  have hdraining : start.guards.draining = false :=
    hstart.draining.trans (congrArg Guards.draining hrest.guards)
  rcases hrun : Call.topLevel (Reentry.reacting program n) call start with ⟨outcome, settled⟩
  have hcall : (Call.topLevel (Reentry.reacting program n) call start).1 ≠ .error .tooDeep := by
    intro htooDeep
    obtain rfl : outcome = .error .tooDeep := by rwa [hrun] at htooDeep
    exact hreturns (by rw [Call.bind_of_error hrun])
  obtain ⟨a, haccounts, houtcome⟩ :=
    Call.accounts_topLevel hr (fun {_} ↦ Call.queues_of_own hr hown) hnesting hdraining hcall
  rw [hrun] at haccounts houtcome
  dsimp only at haccounts houtcome
  obtain ⟨e₂, hdrains, hsettled⟩ := haccounts.drains
  have hafter : Silent settled ((Call.topLevel (Reentry.reacting program n) call >>= answer) start).2 := by
    cases outcome with
    | error halt =>
      rw [Call.bind_of_error hrun]
      exact refl_of Silent settled
    | ok v =>
      rw [Call.bind_of_ok hrun]
      exact (hanswer v settled).2
  have hfails : ∀ err, a.outcome = .error (.failed err) →
      ((Call.topLevel (Reentry.reacting program n) call >>= answer) start).1
        = .error (.failed err) := by
    intro err herr
    rw [Call.bind_of_error (hrun.trans (by rw [houtcome, herr]))]
  have hhanded : settled.handed = e.handed ++ a.works.filterMap Deferred.handed? := by
    rw [← hstart.handed, ← haccounts.handed, hsettled]
    exact hdrains.handed_eq
  refine ⟨start, settled, a, hstart, haccounts, hdrains.works_eq, hafter, ?_, hhanded,
    fun err herr ↦ hfails err (by rw [Account.outcome, herr]), fun v failure hv hmem ↦ ?_⟩
  · rw [hsettled]
    exact hdrains.deferred_eq
  · obtain ⟨err, herr, hreports⟩ := Account.reports hv hmem
    exact ⟨err, hfails err herr, hreports⟩

/-- A search solver and a predicate that it can never satisfy. -/
def unsatisfiable : List Request := [
  .addSolver (.domainSearch 100) false,
  .createObject [("x", .number 1)]]

/-- The predicate, with a handler that tries once more without one. -/
def insisting : Request :=
  .always (.inDomain (Expr.fieldOf 0 "x") []) { solver := some ⟨0⟩, onError := some {
    tag := "again", actions := [.always (.inDomain (Expr.fieldOf 0 "x") []) { solver := some ⟨0⟩ }] } }

/-- The answer is the failure of the second attempt, which is deferred while the handler runs. -/
def insisted : Except Halt Answer × Engine :=
  Call.perform (Reentry.reacting (fun requests _ ↦ .ofList requests) 9) insisting
    ((new {}).run unsatisfiable)

/-- The handler is given the first failure and defers the second one, which the answer reports. -/
theorem accounts_insisting : ∃ (settled : Engine) (a : Account (Option ConstraintId)),
    a.works = a.left.deferred ++ a.queued ∧
    (a.works.filterMap Deferred.handed?).map Prod.fst = ["again"] ∧
    Silent settled insisted.2 ∧
    ∀ v failure, a.own = .ok v → .rethrow failure ∈ a.works →
      ∃ err, insisted.1 = .error (.failed err) ∧ err.Reports failure := by
  have hdriven : Driven {} ((new {}).run unsatisfiable) :=
    .run .new (by decide +kernel)
  have hbefore : ((new {}).run unsatisfiable).handed.map Prod.fst = [] := by decide +kernel
  have hafter : insisted.2.handed.map Prod.fst = ["again"] := by decide +kernel
  have hreturned : returned insisted.1 = true := by decide +kernel
  obtain ⟨-, settled, a, -, -, hworks, hlast, -, hhanded, -, hreports⟩ :=
    (hdriven.accounts (ne_tooDeep_of_returned hreturned)).1 _ _ (.always _ _)
  refine ⟨settled, a, hworks, ?_, hlast, hreports⟩
  rw [← hafter, ← List.nil_append (List.map _ _), ← hbefore, ← List.map_append, ← hhanded]
  exact congrArg _ hlast.handed.symm

/-- Two fields are kept equal to a third one by a heavier solver than the one that keeps one of them to
a value. The hook of the other one asks for a predicate that nothing satisfies. -/
def eclipsed : List Request := [
  .addSolver .dataflow false,
  .addSolver (.domainSearch 10000) false,
  .createObject [("x", .number 1), ("y", .number 1), ("z", .number 1)],
  .always (.binary .eq (Expr.fieldOf 0 "x") (Expr.fieldOf 0 "y")) { solver := some ⟨0⟩ },
  .always (.binary .eq (Expr.fieldOf 0 "x") (Expr.fieldOf 0 "z")) { solver := some ⟨0⟩ },
  .always (.inDomain (Expr.fieldOf 0 "z") [.number 1]) { solver := some ⟨1⟩ },
  .onWrite ⟨0⟩ "y" [.always (.inDomain (Expr.fieldOf 0 "y") []) { solver := some ⟨1⟩ }],
  .always (.binary .eq (Expr.fieldOf 0 "x") (.const (.number 2)))
    { solver := some ⟨0⟩, postpone := true }]

/-- The failure of a call. -/
def failure? {α : Type} : Except Halt α → Option EngineError
  | .error (.failed err) => some err
  | _ => none

theorem failed_of_failure? {result : Except Halt α} {err : EngineError}
    (h : failure? result = some err) : result = .error (.failed err) := by
  match result with
  | .error (.failed _) => rw [Option.some.inj h]

/-- What the call of switching on a constraint leaves, before deferred work is taken up. -/
def switched : Engine :=
  let e := (new {}).run eclipsed
  (Call.attempt (Call.enable (Reentry.ofDepth nestingLimit) ⟨3⟩ false)
    { e with guards := { e.guards with nesting := e.guards.nesting + 1 } }).2

/-- The call fails on its own while the failure of the hook's request is deferred, and the answer does
not report that one. -/
theorem exists_lost_failure : Driven {} ((new {}).run eclipsed) ∧
    ∃ err failure, (((new {}).run eclipsed).answer (.enable ⟨3⟩)).1 = .error (.failed err) ∧
      .rethrow failure ∈ switched.deferred ∧ ¬ err.Reports failure := by
  have hanswer : (failure? (((new {}).run eclipsed).answer (.enable ⟨3⟩)).1).map
      EngineError.isNoSolver = some false := by decide +kernel
  have hdeferred : (switched.deferred.filterMap Deferred.rethrown?).map EngineError.isNoSolver
      = [true] := by decide +kernel
  obtain ⟨err, herr, hother⟩ := Option.map_eq_some_iff.1 hanswer
  obtain ⟨failure, hrethrown, hlist⟩ := List.map_eq_singleton_iff.1 hdeferred
  have hmem : failure ∈ switched.deferred.filterMap Deferred.rethrown? := by
    rw [hrethrown]
    exact List.mem_singleton_self failure
  obtain ⟨work, hwork, hfailure⟩ := List.mem_filterMap.1 hmem
  refine ⟨.run .new (by decide +kernel), err, failure, failed_of_failure? herr, ?_, ?_⟩
  · cases work with
    | handle handler errors => cases hfailure
    | rethrow _ => exact Option.some.inj hfailure ▸ hwork
  · rintro (rfl | ⟨errors, rfl, -⟩)
    · exact Bool.false_ne_true (hother.symm.trans hlist)
    · cases hother

end Engine

end LiveConstraints

import LiveConstraints.Proofs.Matching
import LiveConstraints.Proofs.Quiescence.Steady
import LiveConstraints.Proofs.Reactions
/-!
# Watching hooks and handlers

To say when handlers start, they are watched. `Reentry.watched` are ways back into the engine that do
anything at all in place of a reaction that would start at an engine without a given property. If a
call does the same with either, every reaction starts at an engine with the property.

Since nothing but the start of a reaction tells the ways back apart, a call matches itself
(`Call.Matches`) if the ways back do (`Reentry.Shadows`). It does so at engines with one of two
properties: a call is in progress (`Engine.Busy`), or the engine is idle unless one is
(`Engine.Orderly`).
-/

namespace LiveConstraints

open Engine

variable {α β : Type} {e e' : Engine}

/-! ### Watched reactions -/

/-- The ways back into the engine with hooks and handlers of a program, except that a reaction starts only
where a property of the engine holds. Elsewhere something else is done. -/
noncomputable def Reentry.watched (P : Engine → Prop) (other : List Request → Call Unit)
    (program : Program) : Nat → Reentry
  | 0 => exhausted
  | n + 1 => {
    patience := n + 1
    suggest := fun x v origin force => Call.suggest (watched P other program n) x v origin force
    recalculate := fun id => Call.recalculate (watched P other program n) id
    act := fun requests e =>
      open scoped Classical in
      if P e then Call.follow (watched P other program n) (program requests e) e
      else other requests e }

/-! ### Calls in progress -/

/-- A hook or handler starts. -/
def JournalEntry.starts : JournalEntry → Bool
  | .hook .. | .handler .. => true
  | .made .. => false

namespace Engine

/-- The hooks and handlers that were started so far, in order. -/
def started (e : Engine) : List JournalEntry := e.journal.toList.filter JournalEntry.starts

theorem started_push (entry : JournalEntry) :
    started { e with journal := e.journal.push entry }
      = e.started ++ if entry.starts then [entry] else [] := by
  simp only [started, Array.toList_push, List.filter_append]
  cases hstarts : entry.starts <;> simp [hstarts]

theorem started_congr (journal : e'.journal = e.journal) : e'.started = e.started := by
  rw [started, journal, started]

/-- A call is in progress. -/
def Busy (e : Engine) : Prop := 0 < e.guards.nesting

/-- No call is in progress: no guard is raised, except that deferred work may be being taken up, no
hook is collected, and no constraint is marked. -/
structure Idle (e : Engine) : Prop where
  /-- No guard is raised. -/
  guards : e.guards = { draining := e.guards.draining, generation := e.guards.generation }
  /-- No hook is collected. -/
  pending : e.pendingHooks = none
  /-- No constraint is marked. -/
  marked : ∀ id, ¬ e.Marked id

/-- Either a call is in progress or the engine is idle. -/
def Orderly (e : Engine) : Prop := e.guards.nesting = 0 → e.Idle

/-- Hooks may run: a call is in progress, and no hooks are collected. -/
structure Receptive (e : Engine) : Prop where
  busy : e.Busy
  pending : e.pendingHooks = none

/-- A handler was given failures, and nothing happened since. -/
def AtHandler (e : Engine) : Prop := ∃ tag errors, e.journal.back? = some (.handler tag errors)

/-- If no hooks are collected, none are afterwards. If they are, they go on being collected, and no
hook or handler runs meanwhile: nothing is recorded. -/
structure Collects (e e' : Engine) : Prop where
  none : e.pendingHooks = none → e'.pendingHooks = none
  some : e.pendingHooks.isSome → e'.pendingHooks.isSome ∧ e'.journal = e.journal

instance : IsPreorder Engine Collects where
  refl _ := ⟨fun h ↦ h, fun h ↦ ⟨h, rfl⟩⟩
  trans _ _ _ h h' := by
    refine ⟨fun hnone ↦ h'.none (h.none hnone), fun hsome ↦ ?_⟩
    obtain ⟨hsome₁, hjournal₁⟩ := h.some hsome
    obtain ⟨hsome₂, hjournal₂⟩ := h'.some hsome₁
    exact ⟨hsome₂, hjournal₂.trans hjournal₁⟩

theorem Collects.same (pending : e'.pendingHooks = e.pendingHooks) (journal : e'.journal = e.journal) :
    Collects e e' :=
  ⟨fun hnone ↦ pending.trans hnone, fun hsome ↦ ⟨by rwa [pending], journal⟩⟩

theorem Collects.idle (before : e.pendingHooks = .none) (after : e'.pendingHooks = .none) :
    Collects e e' :=
  ⟨fun _ ↦ after, fun hsome ↦ by simp [before] at hsome⟩

/-- What a computation raised, it lowered again. -/
structure Lowers (e e' : Engine) : Prop where
  guards : e'.guards = { e.guards with generation := e'.guards.generation }
  pending : Collects e e'
  marked : ∀ id, e'.Marked id → e.Marked id

/-- The same, and if hooks are running, no other one started, nor a handler. -/
structure Resumes (e e' : Engine) : Prop extends Lowers e e' where
  silent : e.guards.runningHooks = true → e'.started = e.started

/-- The same of a call of its own, which leaves no work behind. -/
structure Concludes (e e' : Engine) : Prop extends Resumes e e' where
  deferred : e.guards.nesting = 0 → e.guards.draining = false → e.deferred = [] → e'.deferred = []

instance : IsPreorder Engine Lowers where
  refl e := ⟨rfl, refl_of Collects e, fun _ h ↦ h⟩
  trans _ _ _ h h' := by
    refine ⟨?_, trans_of Collects h.pending h'.pending, fun id hid ↦ h.marked id (h'.marked id hid)⟩
    rw [h'.guards, h.guards]

instance : IsPreorder Engine Resumes where
  refl e := ⟨refl_of Lowers e, fun _ ↦ rfl⟩
  trans _ _ _ h h' := by
    refine ⟨trans_of Lowers h.toLowers h'.toLowers, fun hrunning ↦ ?_⟩
    rw [h'.silent (by rw [h.guards]; exact hrunning), h.silent hrunning]

instance : IsPreorder Engine Concludes where
  refl e := ⟨refl_of Resumes e, fun _ _ h ↦ h⟩
  trans _ _ _ h h' := by
    refine ⟨trans_of Resumes h.toResumes h'.toResumes, fun hnesting hdraining hdeferred ↦ ?_⟩
    refine h'.deferred ?_ ?_ (h.deferred hnesting hdraining hdeferred) <;> rw [h.guards]
    · exact hnesting
    · exact hdraining

theorem Steady.resumes (h : Steady e e') : Resumes e e' :=
  ⟨⟨h.guards, .same h.pending h.journal, h.marked⟩, fun _ ↦ started_congr h.journal⟩

theorem Steady.concludes (h : Steady e e') : Concludes e e' :=
  ⟨h.resumes, fun _ _ hdeferred ↦ h.deferred.trans hdeferred⟩

/-- The guards are raised, and then lowered again. -/
theorem Lowers.lower {f g : Guards → Guards} (h : Lowers { e with guards := f e.guards } e')
    (hback : ∀ n, g { f e.guards with generation := n } = { e.guards with generation := n }) :
    Lowers e { e' with guards := g e'.guards } := by
  refine ⟨?_, ⟨h.pending.none, h.pending.some⟩, h.marked⟩
  dsimp only
  rw [h.guards, hback]

/-- The same of guards other than the one that tells that hooks are running. -/
theorem Resumes.lower {f g : Guards → Guards} (h : Resumes { e with guards := f e.guards } e')
    (hrunning : (f e.guards).runningHooks = e.guards.runningHooks)
    (hback : ∀ n, g { f e.guards with generation := n } = { e.guards with generation := n }) :
    Resumes e { e' with guards := g e'.guards } :=
  ⟨h.toLowers.lower hback, fun h' ↦ h.silent (hrunning.trans h')⟩

theorem Lowers.nesting (h : Lowers e e') : e'.guards.nesting = e.guards.nesting := by rw [h.guards]

/-- Where no hooks are running, it does not matter what starts. -/
theorem Lowers.resumes (h : Lowers e e') (hrunning : e.guards.runningHooks = false) : Resumes e e' :=
  ⟨h, fun h' ↦ absurd (hrunning.symm.trans h') Bool.false_ne_true⟩

theorem Idle.lowers (hi : e.Idle) (h : Lowers e e') : e'.Idle where
  guards := by rw [h.guards, hi.guards]
  pending := h.pending.none hi.pending
  marked id hid := hi.marked id (h.marked id hid)

theorem Idle.runningHooks (hi : e.Idle) : e.guards.runningHooks = false := by rw [hi.guards]

theorem Orderly.lowers (ho : e.Orderly) (h : Lowers e e') : e'.Orderly :=
  fun hnesting ↦ (ho (h.nesting ▸ hnesting)).lowers h

/-- A call that is in progress stays in progress. -/
theorem Busy.orderly (hb : e.Busy) : e.Orderly := fun hnesting ↦ absurd hnesting (Nat.ne_of_gt hb)

/-- A property that a relation keeps, in which nothing steady is left out. -/
class Frames (I : Engine → Prop) (R : Engine → Engine → Prop) : Prop extends Persists I R where
  steady : ∀ {e e'}, Steady e e' → R e e'

instance : Frames Busy Lowers where
  steady h := h.resumes.toLowers
  keeps h hb := by rwa [Busy, h.nesting]

instance : Frames Receptive Lowers where
  steady h := h.resumes.toLowers
  keeps h hr := ⟨Persists.keeps h hr.busy, h.pending.none hr.pending⟩

instance : Frames Idle Lowers where
  steady h := h.resumes.toLowers
  keeps h hi := hi.lowers h

instance {I : Engine → Prop} [Frames I Lowers] : Frames I Resumes where
  steady h := h.resumes
  keeps h hI := Persists.keeps h.toLowers hI

instance : Frames Orderly Concludes where
  steady h := h.concludes
  keeps h ho := ho.lowers h.toLowers

end Engine

namespace Call

variable {I : Engine → Prop} {R : Engine → Engine → Prop}

namespace Matches

variable {m : Call α} {f f' : α → Call β} [IsPreorder Engine R] [Frames I R]

/-- A first part that is steady. -/
theorem steady_bind (hm : Within Steady e m)
    (hf : ∀ a e', Steady e e' → Matches I R e' (f a) (f' a)) :
    Matches I R e (m >>= f) (m >>= f') := by
  intro hI
  have hrest : ∀ a e', Steady e e' → Coincide (R e') e' (f a) (f' a) :=
    fun a e' h ↦ hf a e' h (Persists.keeps (R := R) (Frames.steady I h) hI)
  have hwithin : Within R e (m >>= f') :=
    hm.bind_of (fun _ ↦ Frames.steady I) fun a e' _ h ↦ (hrest a e' h).within
  refine ⟨?_, hwithin⟩
  rcases hrun : m e with ⟨halt | a, e'⟩
  · rw [bind_of_error hrun, bind_of_error hrun]
  · rw [bind_of_ok hrun, bind_of_ok hrun]
    exact (hrest a e' (hm.of_ok hrun)).1

/-- A first step that is steady. -/
theorem lift_bind {m : Step α} (hm : m.Within Steady e)
    (hf : ∀ a e', Steady e e' → Matches I R e' (f a) (f' a)) :
    Matches I R e (liftM m >>= f) (liftM m >>= f') := steady_bind (.lift hm) hf

omit [IsPreorder Engine R] in
theorem of_steady (h : Within Steady e m) : Matches I R e m m :=
  of_within (h.mono fun _ ↦ Frames.steady I)

end Matches

/-- While a call is in progress, two computations do the same and lower what they raised. -/
abbrev Mimics (e : Engine) (m m' : Call α) : Prop := Matches Busy Resumes e m m'

/-- At an orderly engine, two calls of their own do the same and leave nothing behind. -/
abbrev Heeds (e : Engine) (m m' : Call α) : Prop := Matches Orderly Concludes e m m'

/-- A computation between two changes that come to nothing. It may not fail, for then the second
change would not be made. -/
theorem Mimics.between {start stop : Call PUnit} {e₀ : Engine} {g : Engine → Engine}
    {m m' : Call α} {k l : α → Call β} (hstart : start e = (.ok ⟨⟩, e₀))
    (hstop : ∀ e₁, stop e₁ = (.ok ⟨⟩, g e₁)) (hm : Busy e → Coincide (Resumes e₀) e₀ m m')
    (hunfailing : Unfailing m') (hback : ∀ e₁, Resumes e₀ e₁ → Resumes e (g e₁))
    (hk : ∀ a e₁, Resumes e e₁ → Mimics e₁ (k a) (l a)) :
    Mimics e (do
      start
      let a ← m
      stop
      k a) (do
      start
      let a ← m'
      stop
      l a) := by
  intro hb
  refine .known_bind hstart ((hm hb).unfailing_bind hunfailing fun a e₁ _ h₁ ↦ ?_)
  have h := hback e₁ h₁
  exact .known_bind (hstop e₁) ((hk a (g e₁) h (Persists.keeps h hb)).mono fun _ ↦ trans_of Resumes h)

/-- A computation between two changes of the guards. -/
theorem Mimics.bracket {f g : Guards → Guards} {m m' : Call α} {k l : α → Call β}
    (hm : Mimics { e with guards := f e.guards } m m') (hunfailing : Unfailing m')
    (hnesting : (f e.guards).nesting = e.guards.nesting)
    (hrunning : (f e.guards).runningHooks = e.guards.runningHooks)
    (hback : ∀ n, g { f e.guards with generation := n } = { e.guards with generation := n })
    (hk : ∀ a e₁, Resumes e e₁ → Mimics e₁ (k a) (l a)) :
    Mimics e (do
      Step.modifyGuards f
      let a ← m
      Step.modifyGuards g
      k a) (do
      Step.modifyGuards f
      let a ← m'
      Step.modifyGuards g
      l a) := by
  exact .between rfl (fun _ ↦ rfl) (fun hb ↦ hm (by rwa [Busy, hnesting])) hunfailing
    (fun e₁ h₁ ↦ h₁.lower hrunning hback) hk

end Call

/-- The ways back into the engine do the same while a call is in progress, and reactions do the same
where they may start. -/
structure Reentry.Shadows (r r' : Reentry) : Prop where
  patience : r.patience = r'.patience
  suggest : ∀ e x v origin force,
    Call.Mimics e (r.suggest x v origin force) (r'.suggest x v origin force)
  recalculate : ∀ e id, Call.Mimics e (r.recalculate id) (r'.recalculate id)
  act : ∀ e requests, (e.AtHandler → e.Idle) → e.Orderly → e.pendingHooks = none →
    Call.Coincide (Resumes e) e (r.act requests) (r'.act requests)
  unfailing : ∀ requests, Call.Unfailing (r'.act requests)

end LiveConstraints

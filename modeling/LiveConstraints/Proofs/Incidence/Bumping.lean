import LiveConstraints.Proofs.Incidence.Closure
import LiveConstraints.Proofs.Matching.Writing
import LiveConstraints.Proofs.Quiescence.Answering
/-!
# What writes bump

A write bumps the solver that defines its variable, and pins what is downstream of the connected
closure of the variable. The closure is remembered with the generation that it was found in, and
constraints may come to list further variables without a tick. But a bump ticks as soon as it has found
a closure, so what is remembered of closures is always of an earlier generation (`Engine.Outdated`), and
no bump relies on it unless the generation has come round since (`Engine.RecentClosure`). As the tables
are tied besides, what is found is the connected closure (`Engine.Driven.closures_exact`).

A write that a hook or handler makes, and one that puts an old value back, run in the middle of a call.
So, as with requests that are diverted, bumps are diverted: something else is done in place of any that
would not be of the connected closure (`Call.bumpWhere`), wherever a write is led through
(`Reentry.bumping`). If that makes no difference, every bump is of the connected closure.
-/

namespace LiveConstraints

open Engine

variable {e e' : Engine} {x : VarId} {config : Setup}

namespace Engine

/-! ### What is remembered of closures -/

/-- What is remembered of closures was found before a generation. -/
def ClosedBefore (e : Engine) (generation : Nat) : Prop :=
  ∀ x v memo, e.vars.get? x = some v → v.closureMemo = some memo → memo.1 < generation

/-- What is remembered of closures was found in an earlier generation. -/
def Outdated (e : Engine) : Prop := e.ClosedBefore e.guards.generation

/-- What a variable remembers of its closure is not so old that its generation came round. -/
def RecentClosure (e : Engine) (x : VarId) : Prop :=
  ∀ v memo, e.vars.get? x = some v → v.closureMemo = some memo → e.guards.generation < memo.1 + UInt64.size

theorem recentClosure_of_lt (h : e.guards.generation < UInt64.size) : e.RecentClosure x :=
  fun _ _ _ _ ↦ Nat.lt_of_lt_of_le h (Nat.le_add_left _ _)

/-- What is remembered of closures stays outdated. -/
def Outdates (e e' : Engine) : Prop := e.Outdated → e'.Outdated

instance : IsPreorder Engine Outdates where
  refl _ := id
  trans _ _ _ h h' := h' ∘ h

/-- Each closure that is remembered was remembered before. -/
theorem ClosedBefore.of_vars {generation : Nat} (h : e.ClosedBefore generation)
    (vars : ∀ y w memo, e'.vars.get? y = some w → w.closureMemo = some memo →
      ∃ v, e.vars.get? y = some v ∧ v.closureMemo = some memo) :
    e'.ClosedBefore generation := by
  intro y w memo hw hmemo
  obtain ⟨v, hv, hbefore⟩ := vars y w memo hw hmemo
  exact h y v memo hv hbefore

theorem ClosedBefore.mono {g g' : Nat} (h : e.ClosedBefore g) (hle : g ≤ g') : e.ClosedBefore g' :=
  fun x v memo hv hmemo ↦ Nat.lt_of_lt_of_le (h x v memo hv hmemo) hle

/-- Each closure that is remembered was remembered before, and the generation does not go back. -/
theorem outdates_of_vars (generation : e.guards.generation ≤ e'.guards.generation)
    (vars : ∀ y w memo, e'.vars.get? y = some w → w.closureMemo = some memo →
      ∃ v, e.vars.get? y = some v ∧ v.closureMemo = some memo) : Outdates e e' :=
  fun h ↦ (h.of_vars vars).mono generation

/-- Variables and the generation are all that matters. -/
theorem outdates_aside (vars : e'.vars = e.vars)
    (generation : e.guards.generation ≤ e'.guards.generation) : Outdates e e' :=
  outdates_of_vars generation fun _ w _ hw hmemo ↦ ⟨w, vars ▸ hw, hmemo⟩

/-- A variable changes, but not in what is remembered of its closure. -/
theorem outdates_variable {f : Variable → Variable}
    (memo : ∀ v, (f v).closureMemo = v.closureMemo) :
    Outdates e { e with vars := e.vars.modify x f } := by
  refine outdates_of_vars (Nat.le_refl _) fun y w m hw hmemo ↦ ?_
  obtain ⟨v, hv, ⟨-, rfl⟩ | ⟨-, rfl⟩⟩ := exists_of_modify hw
  · exact ⟨v, hv, (memo v).symm.trans hmemo⟩
  · exact ⟨w, hv, hmemo⟩

theorem Finds.outdates (h : Finds e e') : Outdates e e' := by
  refine outdates_of_vars (Nat.le_of_eq (by rw [h.guards])) fun y w memo hw hmemo ↦ ?_
  obtain ⟨v, hv, -⟩ := h.exists_before hw
  have hclosures := h.closures y
  rw [hw, hv, Option.map_some, Option.map_some] at hclosures
  exact ⟨v, hv, (Option.some.inj hclosures).symm.trans hmemo⟩

instance : Managing Outdates where
  aside _ vars _ _ _ generation _ _ _ := outdates_aside vars generation
  finds h := h.outdates
  current h := h
  retouch _ _ retouches := outdates_variable fun v ↦ (retouches v).closureMemo
  allocate blank := by
    refine outdates_of_vars (Nat.le_refl _) fun y w memo hw hmemo ↦ ?_
    obtain ⟨-, rfl⟩ | ⟨-, hbefore⟩ := Arena.of_get?_insert hw
    · rw [blank.closureMemo] at hmemo
      cases hmemo
    · exact ⟨w, hbefore, hmemo⟩
  release _ := outdates_of_vars (Nat.le_refl _) fun _ w _ hw hmemo ↦
    ⟨w, (Arena.of_get?_remove hw).2, hmemo⟩
  adjust _ _ _ := outdates_aside rfl (Nat.le_refl _)
  introduce _ := outdates_aside rfl (Nat.le_refl _)
  retire _ := outdates_aside rfl (Nat.le_refl _)
  confine _ _ _ := outdates_aside rfl (Nat.le_refl _)
  register _ := outdates_aside rfl (Nat.le_refl _)

instance : Reentrant Outdates :=
  .of_ordinary
    (fun _ vars _ _ guards _ _ ↦ outdates_aside vars (Nat.le_of_eq (by rw [guards])))
    (fun _ _ ↦ outdates_aside rfl (Nat.le_refl _)) (fun _ ↦ outdates_aside rfl (Nat.le_refl _))
    fun _ _ _ ↦ outdates_aside rfl (Nat.le_refl _)

end Engine

/-! ### Bumping -/

namespace Step

theorem outdates_pinDownstream (x : VarId) : Within Outdates e (pinDownstream x) :=
  within_pinDownstream (fun _ _ _ ↦ outdates_aside rfl (Nat.le_refl _))
    fun _ ↦ outdates_variable fun _ ↦ rfl

theorem outdates_unpinDownstream (x : VarId) : Within Outdates e (unpinDownstream x) :=
  within_unpinDownstream (fun _ _ _ ↦ outdates_aside rfl (Nat.le_refl _))
    fun _ ↦ outdates_variable fun _ ↦ rfl

/-- What is outdated does not count: the closure is found. -/
theorem closure_of_outdated (h : e.Outdated) (hrecent : e.RecentClosure x) :
    (closure x e).1 = e.closure x := by
  obtain ⟨memo, hmemo, hlooks, -⟩ | hrun := closure_cases x e
  · obtain ⟨v, hv, hremembered⟩ := Option.bind_eq_some_iff.1 hmemo
    have hbefore : memo.1 < e.guards.generation := h x v memo hv hremembered
    exact absurd (Guards.eq_of_looksCurrent hlooks (Nat.le_of_lt hbefore)
      (hrecent v memo hv hremembered)) (Nat.ne_of_lt hbefore)
  · rw [hrun]

/-- What is remembered anew is of the present generation. -/
theorem closedBefore_closure (h : e.Outdated) (x : VarId) :
    (closure x e).2.ClosedBefore ((closure x e).2.guards.generation + 1) := by
  obtain ⟨memo, -, -, hrun⟩ | hrun := closure_cases x e
  · rw [hrun]
    exact h.mono (Nat.le_succ _)
  · rw [hrun]
    intro y w memo hw hmemo
    obtain ⟨v, hv, ⟨-, rfl⟩ | ⟨-, rfl⟩⟩ := exists_of_modify hw
    · cases hmemo
      exact Nat.lt_succ_self _
    · exact Nat.lt_succ_of_lt (h y w memo hv hmemo)

/-- A bump ticks before it does anything else that matters. -/
theorem outdated_bump {s : SolverId} {xs : List VarId}
    (h : e.ClosedBefore (e.guards.generation + 1)) : (bump s xs e).2.Outdated := by
  have hpin : ∀ e₁, Within Outdates e₁ (xs.forM pinDownstream) :=
    fun _ ↦ .forM fun x _ _ _ ↦ outdates_pinDownstream x
  exact hpin _ h

theorem outdates_weigh (s : SolverId) (weight : Solver → Float) :
    Within Outdates e (modifySolver s fun solver => solver.setWeight (weight solver)) :=
  outdates_aside rfl (Nat.le_refl _)

theorem outdates_unbump (s : SolverId) (xs : List VarId) : Within Outdates e (unbump s xs) :=
  .get_bind ((outdates_weigh s _).bind fun _ _ _ _ ↦ ordinary_tick.bind
    fun _ _ _ _ ↦ .forM fun x _ _ _ ↦ outdates_unpinDownstream x)

end Step

namespace Call

theorem outdates_bumpFor (x : VarId) (origin : Origin) (d : Defining) :
    Step.Within Outdates e (bumpFor x origin d) := by
  unfold bumpFor
  split
  · exact .pure _
  · exact fun h ↦ Step.outdated_bump (Step.closedBefore_closure h x)

end Call

namespace Engine

instance : Lasting Outdates where
  store _ _ := .lift (outdates_variable fun _ ↦ rfl)
  guards _ generation := outdates_aside rfl (Nat.le_of_eq generation.symm)
  bumpFor := Call.outdates_bumpFor
  unbump := Step.outdates_unbump
  aside _ _ _ generation := outdates_aside rfl (Nat.le_of_eq generation.symm)
  setReadonly := Call.within_setReadonly fun _ _ _ ↦ outdates_aside rfl (Nat.le_refl _)
  setWeight _ _ := .bind (.of_callSolver fun _ _ ↦ outdates_aside rfl (Nat.le_refl _))
    fun _ _ _ _ ↦ .lift Step.ordinary_tick

/-! ### Finding the connected closure -/

/-- The tables are tied and no closure counts that is remembered. -/
structure Searchable (e : Engine) : Prop where
  tied : e.Tied
  outdated : e.Outdated

instance : Persists Searchable (Both Maintains Outdates) where
  keeps h hs := ⟨h.1 hs.tied, h.2 hs.outdated⟩

/-- The closure of a live variable is its connected closure. -/
theorem Searchable.isClosure (h : e.Searchable) (hx : e.vars.contains x = true)
    (hrecent : e.RecentClosure x) : e.IsClosure x (Step.closure x e).1 := by
  rw [Step.closure_of_outdated h.outdated hrecent]
  exact h.tied.isClosure hx

/-- If a write to a variable bumps anything, it does so for the connected closure of the variable, which
is looked for before the generation comes round. -/
def BumpsClosure (e : Engine) (x : VarId) (origin : Origin) (d : Defining) : Prop :=
  e.RecentClosure x → ∀ s ys, (Call.bumpFor x origin d e).1 = some (s, ys) → e.IsClosure x ys

theorem Searchable.bumpsClosure (h : e.Searchable) (hx : e.vars.contains x = true) (origin : Origin)
    (d : Defining) : e.BumpsClosure x origin d := by
  intro hrecent s ys hbumped
  unfold Call.bumpFor at hbumped
  split at hbumped
  · cases hbumped
  · cases hbumped
    exact h.isClosure hx hrecent

end Engine

/-! ### Diverting bumps -/

/-- Bumps for a write. Where that would not be for the connected closure of the variable, something
else is done. -/
noncomputable def Call.bumpWhere (P : Engine → VarId → Origin → Defining → Prop) (other : Bump) :
    Bump := fun x origin d e ↦
  open scoped Classical in
  if P e x origin d then (bumpFor x origin d : Call Bumped) e else other x origin d e

/-- Makes the requests of a reaction as `follow` does, but bumps otherwise. -/
def Call.followBy (bump : Bump) (r : Reentry) : Reaction → Call Unit
  | .done => return ()
  | .ask request next => do
    let outcome ← attempt (performBy bump r request)
    Step.record (.made request outcome)
    followBy bump r (next outcome (← get))

/-- The ways back into the engine when `n` more calls may be nested, with hooks and handlers of a
program, except that something else is done to bump. -/
def Reentry.bumping (bump : Bump) (program : Program) : Nat → Reentry
  | 0 => exhausted
  | n + 1 => {
    patience := n + 1
    suggest := fun x v origin force =>
      Call.suggestBy bump (bumping bump program n) x v origin force
    recalculate := fun id => Call.recalculate (bumping bump program n) id
    act := fun requests e =>
      Call.followBy bump (bumping bump program n) (program requests e) e }

section Imitating

variable {I : Engine → Prop} {R : Engine → Engine → Prop} [Lasting R] [Persists I R] {bump : Bump}
  {r r' : Reentry}

/-- **Reacting**, with a bump that imitates the one of the engine. -/
theorem Call.matches_followBy (hbump : bump.Imitates I R) (hr : r.Mirrors I R r')
    (reaction : Reaction) : Matches I R e (followBy bump r reaction) (follow r' reaction) := by
  induction reaction generalizing e with
  | done => exact .pure _
  | ask request next ih =>
    refine (matches_performBy hbump hr request).attempt.bind fun outcome e₁ _ ↦ ?_
    refine .step_bind (Lasting.aside _ _ _ rfl) fun _ e₂ ↦ .get_bind ?_
    exact ih outcome e₂

/-- The ways back match, if something else is done to bump that imitates the bump of the engine. -/
theorem Reentry.mirrors_bumping (hbump : bump.Imitates I R) (program : Program) (n : Nat) :
    (bumping bump program n).Mirrors I R (reacting program n) := by
  induction n with
  | zero => exact mirrors_exhausted
  | succ n ih =>
    rw [bumping, reacting]
    exact {
      patience := rfl
      suggest := fun _ x v origin force ↦ Call.matches_suggestBy hbump ih x v origin force
      recalculate := fun _ id ↦ Call.matches_recalculate ih id
      act := fun e requests ↦ Call.matches_followBy hbump ih (program requests e) }

end Imitating

/-- Bumping only for connected closures is the same as bumping. -/
theorem Call.imitates_bumpWhere (other : Bump) :
    (bumpWhere BumpsClosure other).Imitates Searchable (Both Maintains Outdates) := by
  intro e x origin d hx hs
  refine ((Bump.imitates_bumpFor e x origin d hx) hs).of_eq ?_
  exact if_pos (hs.bumpsClosure hx origin d)

namespace Engine

theorem searchable_new (config : Setup) : (new config).Searchable :=
  ⟨tied_new config, fun _ _ _ hv ↦ nomatch hv⟩

/-- Between requests, what is remembered of closures does not count, and the tables are tied. -/
theorem Driven.searchable (h : Driven config e) : e.Searchable := by
  induction h with
  | new => exact searchable_new config
  | answer _ returns ih =>
    have hlasts := Call.lasts_perform (R := Both Maintains Outdates)
      (Reentry.lasts_reacting _ _) _ returns
    exact Persists.keeps hlasts ih

/-- **The connected closure is exact** between requests, whatever was asked before and whatever hooks
and handlers made of it, unless the generation has come round since the closure was remembered. In the
course of the next request, every bump is for the connected closure of the variable that is written: what
would be done in place of another bump makes no difference. -/
theorem Driven.closures_exact (h : Driven config e) :
    (∀ x, e.vars.contains x = true → e.RecentClosure x → e.IsClosure x (Step.closure x e).1) ∧
    ∀ (other : Bump) (program : Program) (n : Nat) (request : Request),
      Call.performBy (Call.bumpWhere BumpsClosure other)
          (Reentry.bumping (Call.bumpWhere BumpsClosure other) program n) request e
        = Call.perform (Reentry.reacting program n) request e := by
  have hs := h.searchable
  refine ⟨fun x hx hrecent ↦ hs.isClosure hx hrecent, fun other program n request ↦ ?_⟩
  have hbump := Call.imitates_bumpWhere other
  exact (Call.matches_performBy hbump (Reentry.mirrors_bumping hbump program n) request hs).1

/-- Three fields are kept equal in a circle, stays are attached to one of them together with a fourth,
and a constraint that is left switched off compares the fourth with a fifth. -/
def circular : List Request := [
  .addSolver (.relaxation 1000 1e-9) false,
  .createObject [("x", .number 1), ("y", .number 1), ("z", .number 1), ("v", .number 1),
    ("w", .number 1)],
  .always (.binary .eq (Expr.fieldOf 0 "x") (Expr.fieldOf 0 "y")) { solver := some ⟨0⟩ },
  .always (.binary .eq (Expr.fieldOf 0 "y") (Expr.fieldOf 0 "z")) { solver := some ⟨0⟩ },
  .always (.binary .eq (Expr.fieldOf 0 "z") (Expr.fieldOf 0 "x")) { solver := some ⟨0⟩ },
  .stay (.binary .le (Expr.fieldOf 0 "z") (Expr.fieldOf 0 "v")) { solver := some ⟨0⟩ },
  .always (.binary .le (Expr.fieldOf 0 "v") (Expr.fieldOf 0 "w"))
    { solver := some ⟨0⟩, postpone := true }]

/-- The closure of the first field has all five, each once, and a write bumps for them. -/
theorem closures_exact_circular :
    ((new {}).run circular).IsClosure ⟨0⟩ [⟨0⟩, ⟨1⟩, ⟨2⟩, ⟨3⟩, ⟨4⟩] ∧
    ∀ other, (Call.performBy (Call.bumpWhere BumpsClosure other)
      (Reentry.bumping (Call.bumpWhere BumpsClosure other) (fun _ _ ↦ .done) 9)
      (.write ⟨0⟩ "x" (.number 5)) ((new {}).run circular)).2.reported? ⟨0⟩ "z"
        = some (.number 5) := by
  have hrun : Driven {} ((new {}).run circular) := .run .new (by decide +kernel)
  obtain ⟨hclosures, hbumps⟩ := hrun.closures_exact
  refine ⟨?_, fun other ↦ ?_⟩
  · have hfirst := hclosures ⟨0⟩ (by decide +kernel) (recentClosure_of_lt (by decide +kernel))
    rwa [show (Step.closure ⟨0⟩ ((new {}).run circular)).1 = [⟨0⟩, ⟨1⟩, ⟨2⟩, ⟨3⟩, ⟨4⟩]
      by decide +kernel] at hfirst
  · rw [hbumps]
    decide +kernel

end Engine

end LiveConstraints

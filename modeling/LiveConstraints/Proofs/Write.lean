import LiveConstraints.Engine.Write
import LiveConstraints.Proofs.Selection
import Mathlib.Data.Fintype.Pigeonhole
/-!
# Writing keeps the invariant

What a write marks, bumps and pins is seen by no clause. What it collects is run with the guards
raised, and between the raising and the lowering nothing can fail, so that every write ends with the
guards as it found them and hooks are collected afterwards only if they were before.

The search for the hook of a variable follows its chain of parents. Only a chain that leads back to where it
was goes on for longer than there are variables, so the limit on the search takes nothing away
(`Engine.hookOf?_eq_none_iff`).
-/

namespace LiveConstraints

open Engine

variable {e e' : Engine} {r : Reentry} {id : ConstraintId} {s : SolverId} {x : VarId}

/-! ### Bumping and pinning -/

namespace Step

theorem modifies_weigh (hs : e.Sound) (s : SolverId) (f : Float → Float) :
    Within Modifies e (modifySolver s fun solver => solver.setWeight (f solver.weight)) :=
  within_modifySolver fun solver hsolver ↦
    .inl (Solver.alike_setWeight (hs.trusted s solver hsolver).reference _)

/-- Handles are pinned or released. -/
theorem modifies_pinAll (hs : e.Sound) (handles : List (SolverId × ExtVar)) (on : Bool) :
    Within Modifies e (forIn handles PUnit.unit fun b _ ↦ do
      modifySolver b.1 fun solver => solver.setReadonly b.2 on
      pure (.yield PUnit.unit)) := by
  refine .forIn fun b _ _ e₁ h₁ ↦ Within.bind ?_ fun _ _ _ _ ↦ .pure _
  refine within_modifySolver fun solver hsolver ↦ .inl ?_
  exact Solver.alike_setReadonly ((h₁.sound hs).trusted b.1 solver hsolver).reference b.2 on

theorem modifies_pinDownstream (hs : e.Sound) (x : VarId) :
    Within Modifies e (pinDownstream x) := by
  refine .get_bind ?_
  split
  · exact .pure _
  · next v _ =>
    split
    · exact .pure _
    · refine ((recalls_defining x).mono fun _ ↦ Recalls.modifies).bind fun d e₁ _ h₁ ↦ ?_
      refine .get_bind ((modifies_pinAll (h₁.sound hs) _ true).bind fun _ _ _ _ ↦ ?_)
      exact within_modifyVariable fun _ ↦ ⟨rfl, rfl, rfl⟩

theorem modifies_unpinDownstream (hs : e.Sound) (x : VarId) :
    Within Modifies e (unpinDownstream x) := by
  refine .get_bind ?_
  refine Within.bind (within_modifyVariable fun _ ↦ ⟨rfl, rfl, rfl⟩) fun _ e₁ _ h₁ ↦ ?_
  exact (modifies_pinAll (h₁.sound hs) _ false).bind fun _ _ _ _ ↦ .pure _

theorem modifies_bump (hs : e.Sound) (s : SolverId) (xs : List VarId) :
    Within Modifies e (bump s xs) := by
  refine .get_bind ((modifies_weigh hs s (· + e.config.weightBump)).bind fun _ e₁ _ h₁ ↦ ?_)
  refine within_tick.bind fun _ e₂ _ h₂ ↦ .forM fun x _ e₃ h₃ ↦ ?_
  exact modifies_pinDownstream (h₃.sound (h₂.sound (h₁.sound hs))) x

theorem modifies_unbump (hs : e.Sound) (s : SolverId) (xs : List VarId) :
    Within Modifies e (unbump s xs) := by
  refine .get_bind ((modifies_weigh hs s (· - e.config.weightBump)).bind fun _ e₁ _ h₁ ↦ ?_)
  refine within_tick.bind fun _ e₂ _ h₂ ↦ .forM fun x _ e₃ h₃ ↦ ?_
  exact modifies_unpinDownstream (h₃.sound (h₂.sound (h₁.sound hs))) x

/-- Marking a constraint as initiating a write. -/
theorem modifies_mark (id : ConstraintId) (initiating : Bool) :
    Within Modifies e (modifyConstraint id fun c => { c with initiating }) :=
  within_modifyConstraint fun _ ↦ .bookkeeping

theorem modifies_initiate (defining : Option Defining) :
    Within Modifies e (initiate defining) := by
  unfold initiate
  split
  · exact .pure _
  · refine .get_bind ?_
    split
    · exact .pure _
    · split
      · exact .pure _
      · exact (modifies_mark _ true).bind fun _ _ _ _ ↦ .pure _

end Step

/-! ### Hooks -/

namespace Engine

/-- A hook on a variable's own field is registered on an object. -/
theorem exists_of_ownHook? {v : Variable} {h : PendingHook} (hh : e.ownHook? v = some h) :
    ∃ obj o field, e.objects.get? obj = some o ∧ o.hooks.find? field = some h.hook := by
  unfold ownHook? at hh
  split at hh
  · next obj name _ =>
    obtain ⟨o, ho, hh⟩ := Option.bind_eq_some_iff.1 hh
    obtain ⟨actions, hactions, hh⟩ := Option.bind_eq_some_iff.1 hh
    cases hh
    exact ⟨obj, o, name, ho, hactions⟩
  · cases hh

/-- A hook that is found is registered on an object. -/
theorem exists_of_hookOf? {h : PendingHook} (hh : e.hookOf? x = some (some h)) :
    ∃ obj o field, e.objects.get? obj = some o ∧ o.hooks.find? field = some h.hook := by
  unfold hookOf? at hh
  generalize e.vars.cells.size = n at hh
  induction n generalizing x with
  | zero =>
    unfold hookOf?.go at hh
    split at hh <;> cases hh
  | succ n ih =>
    unfold hookOf?.go at hh
    split at hh
    · cases hh
    · split at hh
      · next hook _ hown =>
        cases hh
        exact exists_of_ownHook? hown
      · exact ih hh
      · cases hh

/-- A hook that may be found may be collected. -/
theorem hookOf?_admissible (ht : e.Tame) {h : PendingHook} (hh : e.hookOf? x = some (some h)) :
    Admissible h.hook := by
  obtain ⟨obj, o, field, ho, hhook⟩ := exists_of_hookOf? hh
  exact ht.hooks obj o field h.hook ho hhook

/-! ### Chains of parents -/

/-- Where the search for a hook goes on from a variable: to its parent, if it is there and no hook is on its
own field. -/
def above? (e : Engine) (x : VarId) : Option VarId :=
  (e.vars.get? x).bind fun v ↦ if (e.ownHook? v).isSome then none else v.parent

/-- A step up a chain of parents, if the chain has not ended yet. -/
def climb (e : Engine) (x : Option VarId) : Option VarId := x.bind e.above?

/-- A chain of parents leads to a variable that is there, for any number of steps. -/
def ClimbsFor (e : Engine) (x : VarId) (n : Nat) : Prop :=
  ∃ y, e.climb^[n] (some x) = some y ∧ e.vars.contains y = true

theorem iterate_climb_none (n : Nat) : e.climb^[n] none = none := Function.iterate_fixed rfl n

/-- A limit is reached by a chain that goes on for as long. -/
theorem go_eq_none_iff (n : Nat) : hookOf?.go e n x = none ↔ e.ClimbsFor x n := by
  induction n generalizing x with
  | zero =>
    unfold hookOf?.go
    split
    · next hx => exact iff_of_true rfl ⟨x, rfl, hx⟩
    · next hx =>
      refine iff_of_false nofun ?_
      rintro ⟨y, heq, hy⟩
      cases heq
      exact hx hy
  | succ n ih =>
    have hstep : e.climb^[n + 1] (some x) = e.climb^[n] (e.above? x) :=
      Function.iterate_succ_apply e.climb n (some x)
    have hended (habove : e.above? x = none) : ¬ e.ClimbsFor x (n + 1) := by
      rintro ⟨y, heq, -⟩
      rw [hstep, habove, iterate_climb_none] at heq
      cases heq
    unfold hookOf?.go
    split
    · next hv => exact iff_of_false nofun (hended (by rw [above?, hv]; rfl))
    · next v hv =>
      split
      · next hook _ hown => exact iff_of_false nofun (hended (by simp [above?, hv, hown]))
      · next parent hown hparent =>
        have habove : e.above? x = some parent := by simp [above?, hv, hown, hparent]
        rw [ih, ClimbsFor, ClimbsFor, hstep, habove]
      · next hown hparent => exact iff_of_false nofun (hended (by simp [above?, hv, hown, hparent]))

theorem ClimbsFor.of_succ {n : Nat} (h : e.ClimbsFor x (n + 1)) : e.ClimbsFor x n := by
  obtain ⟨z, hz, -⟩ := h
  rw [Function.iterate_succ_apply'] at hz
  obtain ⟨y, hy, habove⟩ := Option.bind_eq_some_iff.1 hz
  obtain ⟨v, hv, -⟩ := Option.bind_eq_some_iff.1 habove
  exact ⟨y, hy, Arena.contains_iff.2 ⟨v, hv⟩⟩

theorem ClimbsFor.of_le {m n : Nat} (h : e.ClimbsFor x n) (hle : m ≤ n) : e.ClimbsFor x m :=
  Nat.decreasingInduction (fun _ _ ↦ ClimbsFor.of_succ) h hle

/-- A chain that goes on for longer than there are variables comes back to where it was. -/
theorem ClimbsFor.exists_return (h : e.ClimbsFor x e.vars.cells.size) :
    ∃ i p, 0 < p ∧ i + p ≤ e.vars.cells.size ∧
      ∀ n, e.climb^[n + (i + p)] (some x) = e.climb^[n + i] (some x) := by
  choose visited hvisited hlive using fun k : Fin (e.vars.cells.size + 1) ↦
    h.of_le (Nat.le_of_lt_succ k.isLt)
  have hindex : ∀ k, (visited k).index < e.vars.cells.size := fun k ↦
    (Arena.contains_iff.1 (hlive k)).elim fun _ ↦ Arena.lt_next_of_get?
  obtain ⟨i, j, hne, hij⟩ := Fintype.exists_ne_map_eq_of_card_lt
    (fun k ↦ (⟨(visited k).index, hindex k⟩ : Fin e.vars.cells.size)) (by simp)
  have hsame : visited i = visited j := congrArg Id.mk (congrArg Fin.val hij)
  have hmeet : e.climb^[i] (some x) = e.climb^[j] (some x) := by rw [hvisited i, hvisited j, hsame]
  have hreturn : ∀ {i j : Fin (e.vars.cells.size + 1)}, i < j →
      e.climb^[i] (some x) = e.climb^[j] (some x) → ∃ i p, 0 < p ∧ i + p ≤ e.vars.cells.size ∧
        ∀ n, e.climb^[n + (i + p)] (some x) = e.climb^[n + i] (some x) := by
    intro i j hlt hmeet
    have hlt' : i.val < j.val := hlt
    refine ⟨i, j - i, by omega, by omega, fun n ↦ ?_⟩
    rw [Nat.add_sub_cancel' hlt'.le, Function.iterate_add_apply, ← hmeet, ← Function.iterate_add_apply]
  obtain hlt | hlt := lt_or_gt_of_ne hne
  · exact hreturn hlt hmeet
  · exact hreturn hlt hmeet.symm

/-- **The search for a hook** goes on for ever exactly if it is said to: the limit on the number of parents
that are followed cuts off no chain that ends. -/
theorem hookOf?_eq_none_iff : e.hookOf? x = none ↔ ∀ n, e.ClimbsFor x n := by
  refine (go_eq_none_iff _).trans ⟨fun h n ↦ ?_, fun h ↦ h _⟩
  obtain ⟨i, p, hpos, hle, hreturn⟩ := h.exists_return
  induction n using Nat.strong_induction_on with
  | _ n ih =>
    by_cases hn : n ≤ e.vars.cells.size
    · exact h.of_le hn
    · obtain ⟨m, rfl⟩ := Nat.exists_eq_add_of_le' (show i + p ≤ n by omega)
      rw [ClimbsFor, hreturn]
      exact ih (m + i) (by omega)

end Engine

namespace Call

theorem evolves_collectHook (hs : e.Sound) (x : VarId) : Within Evolves e (collectHook x) := by
  refine .lift_bind ((Step.recalls_defining x).mono fun _ h ↦ h.modifies.evolves) fun d e₁ _ h₁ ↦ ?_
  have hs₁ := h₁.sound hs
  split
  · refine .get_bind ?_
    split
    · next hook hhook =>
      refine fun _ ↦ ⟨.single (.aside rfl rfl rfl rfl rfl fun ht ↦
        ⟨ht.evaluator, ht.hooks, ht.options, ht.deferred, ?_⟩), rfl, fun hnone ↦ ?_⟩
      · intro hooks hpending h hh
        obtain ⟨old, hold, rfl⟩ := Option.map_eq_some_iff.1 hpending
        rcases List.mem_append.1 hh with hh | hh
        · exact ht.pending old hold h hh
        · rw [List.mem_singleton.1 hh]
          exact hookOf?_admissible ht hhook
      · show e₁.pendingHooks.map _ = none
        rw [hnone, Option.map_none]
    · exact .pure _
    · exact .tooDeep
  · exact .pure _

theorem unfailing_runHook (hact : ∀ requests, Unfailing (r.act requests)) (h : PendingHook) :
    Unfailing (runHook r h) := by
  refine (unfailing_attempt _).bind fun result ↦ ?_
  cases result with
  | error err => exact .lift _
  | ok v => exact (Unfailing.lift _).bind fun _ ↦ hact h.hook

theorem evolves_runHook (hr : r.Lawful) (hs : e.Sound) {h : PendingHook}
    (hh : Admissible h.hook) : Within Evolves e (runHook r h) := by
  refine (recalls_readField _ _).attempt.bind_of (fun _ h ↦ h.modifies.evolves)
    fun result e₁ _ h₁ ↦ ?_
  have hs₁ := h₁.modifies.sound hs
  cases result with
  | error err => exact .lift ((Step.within_report _).mono fun _ ↦ Modifies.evolves)
  | ok v =>
    refine .lift_bind_of (Step.within_record _) (fun _ ↦ Modifies.evolves) fun _ e₂ _ h₂ ↦ ?_
    exact hr.act (h₂.sound hs₁) hh

/-- Hooks without repetitions are some of the hooks. -/
theorem mem_of_mem_distinct {hooks : List PendingHook} {h : PendingHook}
    (hh : h ∈ PendingHook.distinct hooks) : h ∈ hooks := by
  have hfold : ∀ (hooks kept : List PendingHook), h ∈ hooks.foldl (fun kept h =>
      if kept.any fun k => k.receiver == h.receiver && k.field == h.field then kept
      else kept ++ [h]) kept → h ∈ kept ∨ h ∈ hooks := by
    intro hooks
    induction hooks with
    | nil => exact fun _ h ↦ .inl h
    | cons k hooks ih =>
      intro kept hmem
      rw [List.foldl_cons] at hmem
      rcases ih _ hmem with hmem | hmem
      · split at hmem
        · exact .inl hmem
        · rcases List.mem_append.1 hmem with hmem | hmem
          · exact .inl hmem
          · exact .inr (List.mem_cons.2 (.inl (List.mem_singleton.1 hmem)))
      · exact .inr (List.mem_cons_of_mem _ hmem)
  rcases hfold hooks [] hh with hh | hh
  · cases hh
  · exact hh

/-- **Running hooks.** Those that were collected are run, and none is left. -/
theorem evolves_runHooks (hr : r.Lawful) (hs : e.Sound) (hrunning : e.guards.runningHooks = false) :
    Within Evolves e (runHooks r) := by
  refine .get_bind ?_
  have htake : Evolves e { e with pendingHooks := none } :=
    ⟨.single (.aside rfl rfl rfl rfl rfl fun ht ↦
      ⟨ht.evaluator, ht.hooks, ht.options, ht.deferred, nofun⟩), rfl, fun _ ↦ rfl⟩
  refine .modify_bind htake ?_
  have hs₁ := htake.sound hs
  have hs₂ : Sound { e with pendingHooks := none, guards := { e.guards with runningHooks := true } } :=
    hs₁.aside rfl rfl rfl (hs₁.tame.beside rfl rfl rfl rfl rfl)
  have hall : Within Evolves
      { e with pendingHooks := none, guards := { e.guards with runningHooks := true } }
      ((PendingHook.distinct (e.pendingHooks.getD [])).forM (runHook r)) := by
    refine .forM fun h hh e₃ h₃ ↦ evolves_runHook hr (h₃.sound hs₂) ?_
    have hmem := mem_of_mem_distinct hh
    cases hpending : e.pendingHooks with
    | none =>
      rw [hpending] at hmem
      cases hmem
    | some hooks =>
      rw [hpending] at hmem
      exact hs.tame.pending hooks hpending h hmem
  have hunfailing : Unfailing
      ((PendingHook.distinct (e.pendingHooks.getD [])).forM (runHook r)) :=
    .forM fun h _ ↦ unfailing_runHook hr.unfailing h
  refine Within.bracket (g := fun g ↦ { g with runningHooks := false }) (k := fun _ ↦ pure ()) hall
    (hunfailing _) (fun e₃ h₃ ↦ ?_) fun _ _ _ _ ↦ .pure _
  refine h₃.bracket (f := fun g ↦ { g with runningHooks := true })
    (g := fun g ↦ { g with runningHooks := false }) fun _ ↦ ?_
  rw [← hrunning]

/-! ### Writing -/

theorem modifies_bumpFor (hs : e.Sound) (x : VarId) (origin : Origin) (d : Defining) :
    Step.Within Modifies e (bumpFor x origin d) := by
  unfold bumpFor
  split
  · exact .pure _
  · refine ((Step.recalls_closure x).mono fun _ ↦ Recalls.modifies).bind fun closure e₁ _ h₁ ↦ ?_
    exact (Step.modifies_bump (h₁.sound hs) d.solver closure).bind fun _ _ _ _ ↦ .pure _

theorem modifies_offer (hs : e.Sound) (x : VarId) (v : Value) (origin : Origin) (d : Defining) :
    Within Modifies e (offer x v origin d) := by
  refine .lift_bind (modifies_bumpFor hs x origin d) fun bumped e₁ _ h₁ ↦ ?_
  exact (modifies_suggestTo (h₁.sound hs) d.solver d.handle v).attempt.bind fun _ _ _ _ ↦ .pure _

theorem unfailing_offer (x : VarId) (v : Value) (origin : Origin) (d : Defining) :
    Unfailing (offer x v origin d) :=
  (Unfailing.lift _).bind fun _ ↦ (unfailing_attempt _).bind fun _ ↦ .pure _

theorem modifies_suggestPrimary (hs : e.Sound) (x : VarId) (v : Value) (origin : Origin)
    (d : Defining) : Within Modifies e (suggestPrimary x v origin d) := by
  refine .get_bind ?_
  split
  · exact .pure _
  · next hsuggesting =>
    have hs₁ : Sound
        { e with guards := { e.guards with suggesting := e.guards.suggesting ++ [x] } } :=
      hs.aside rfl rfl rfl (hs.tame.beside rfl rfl rfl rfl rfl)
    refine .bracket (modifies_offer hs₁ x v origin d) (unfailing_offer x v origin d _)
      (fun e₁ h₁ ↦ ?_) fun _ e₁ _ h₁ ↦ ?_
    · refine h₁.bracket (f := fun g ↦ { g with suggesting := g.suggesting ++ [x] })
        (g := fun g ↦ { g with suggesting := g.suggesting.erase x }) fun _ ↦ ?_
      dsimp only
      rw [List.erase_append_right _ (by simpa using hsuggesting), List.erase_cons_head,
        List.append_nil]
    · exact .lift_bind ((touches_reportSolve ⟨0⟩ _ _ _).mono fun _ h ↦ h.modifies)
        fun _ _ _ _ ↦ .pure _

theorem unfailing_suggestPrimary (x : VarId) (v : Value) (origin : Origin) (d : Defining) :
    Unfailing (suggestPrimary x v origin d) := by
  refine .get_bind fun e ↦ ?_
  split
  · exact .pure _
  · exact (Unfailing.lift _).bind fun _ ↦ (unfailing_offer x v origin d).bind fun outcome ↦
      (Unfailing.lift _).bind fun _ ↦ (Unfailing.lift _).bind fun _ ↦ .pure outcome

theorem evolves_countWrite (hr : r.Lawful) (hs : e.Sound) (id : ConstraintId) :
    Within Evolves e (countWrite r id) := by
  refine (modifies_changeConstraint fun _ ↦ .bookkeeping).bind_of
    (fun _ ↦ Modifies.evolves) fun _ e₁ _ h₁ ↦ ?_
  have hs₁ := h₁.sound hs
  refine .constraintAt_bind fun c _ ↦ ?_
  split
  · refine (evolves_reevaluate hr hs₁ id).bind fun _ e₂ _ h₂ ↦ ?_
    exact .lift ((Step.within_modifyConstraint fun _ ↦ .bookkeeping).mono fun _ ↦ Modifies.evolves)
  · exact .pure _

theorem evolves_followUp (hr : r.Lawful) (hs : e.Sound) (hrunning : e.guards.runningHooks = false)
    (x : VarId) (v old : Value) (origin : Origin) (force outermost : Bool)
    (initiating : Option ConstraintId) :
    Within Evolves e (followUp r x v old origin force outermost initiating) := by
  have hrest : ∀ {e₁ : Engine}, Evolves e e₁ → Within Evolves e₁ (do
      propagate r x v old origin force
      collectHook x
      if outermost then runHooks r) := by
    intro e₁ h₁
    have hs₁ := h₁.sound hs
    refine (evolves_propagate hr hs₁ x v old origin force).bind fun _ e₂ _ h₂ ↦ ?_
    have hs₂ := h₂.sound hs₁
    refine (evolves_collectHook hs₂ x).bind fun _ e₃ _ h₃ ↦ ?_
    split
    · refine evolves_runHooks hr (h₃.sound hs₂) ?_
      rw [(h₁.trans (h₂.trans h₃)).guards]
      exact hrunning
    · exact .pure _
  cases initiating with
  | none => exact hrest (.refl e)
  | some id =>
    exact (evolves_countWrite hr hs id).bind fun _ e₁ _ h₁ ↦ hrest h₁

theorem evolves_handOver (hs : e.Sound) (x : VarId) (err : EngineError) :
    Within Evolves e (handOver x err) := by
  refine .get_bind ?_
  dsimp only
  split
  · next handler hhandler =>
    refine .lift (evolves_defer fun handler' errors heq ↦ ?_)
    cases heq
    obtain ⟨v, -, hfound⟩ := Option.bind_eq_some_iff.1 hhandler
    obtain ⟨id, -, hoption⟩ := List.exists_of_findSome?_eq_some hfound
    obtain ⟨c, hc, honError⟩ := Option.bind_eq_some_iff.1 hoption
    exact hs.tame.options id c hc handler honError
  · exact .fail _

theorem evolves_absorb (hr : r.Lawful) (hs : e.Sound) (hrunning : e.guards.runningHooks = false)
    (x : VarId) (v old : Value) (origin : Origin) (force outermost : Bool) :
    Within Evolves e (absorb r x v old origin force outermost) := by
  refine .lift_bind_of (Step.recalls_defining x) (fun _ h ↦ h.modifies.evolves)
    fun defining e₁ _ h₁ ↦ ?_
  have hs₁ := h₁.modifies.sound hs
  refine .lift_bind_of (Step.modifies_initiate defining) (fun _ ↦ Modifies.evolves)
    fun initiating e₂ _ h₂ ↦ ?_
  have hs₂ := h₂.sound hs₁
  have hfollow : ∀ {e₃ : Engine}, Modifies e₂ e₃ → ∀ bumped : Bumped, Within Evolves e₃ (do
      let result ← attempt (followUp r x v old origin force outermost initiating)
      return (⟨initiating, bumped, result⟩ : Written)) := by
    intro e₃ h₃ bumped
    refine (evolves_followUp hr (h₃.sound hs₂) ?_ x v old origin force outermost
      initiating).attempt.bind fun _ _ _ _ ↦ .pure _
    rw [(h₁.modifies.trans (h₂.trans h₃)).guards]
    exact hrunning
  cases defining with
  | none => exact hfollow (.refl e₂) none
  | some d =>
    refine (modifies_suggestPrimary hs₂ x v origin d).bind_of (fun _ ↦ Modifies.evolves)
      fun primary e₃ _ h₃ ↦ ?_
    obtain ⟨bumped, _ | _⟩ := primary
    · exact .pure _
    · exact hfollow h₃ bumped

theorem unfailing_absorb (x : VarId) (v old : Value) (origin : Origin) (force outermost : Bool) :
    Unfailing (absorb r x v old origin force outermost) := by
  refine (Unfailing.lift _).bind fun defining ↦ (Unfailing.lift _).bind fun initiating ↦ ?_
  cases defining with
  | none => exact (unfailing_attempt _).bind fun _ ↦ .pure _
  | some d =>
    refine (unfailing_suggestPrimary x v origin d).bind fun primary ↦ ?_
    obtain ⟨bumped, _ | _⟩ := primary
    · exact .pure _
    · exact (unfailing_attempt _).bind fun _ ↦ .pure _

theorem modifies_takeBack (hs : e.Sound) (w : Written) : Step.Within Modifies e w.takeBack := by
  obtain ⟨initiating, bumped, result⟩ := w
  have hmark : ∀ e₁, Step.Within Modifies e₁ (Written.takeBack ⟨initiating, none, result⟩) := by
    intro e₁
    cases initiating with
    | none => exact .pure _
    | some id => exact Step.modifies_mark id false
  cases bumped with
  | none => exact hmark e
  | some b => exact (Step.modifies_unbump hs b.1 b.2).bind fun _ e₁ _ _ ↦ hmark e₁

theorem evolves_conclude (hs : e.Sound) (x : VarId) (v old : Value)
    (result : Except EngineError Unit) : Within Evolves e (conclude x v old result) := by
  cases result with
  | ok _ => exact .pure _
  | error err =>
    refine .lift_bind_of (Step.recalls_read x) (fun _ h ↦ h.modifies.evolves) fun now e₁ _ h₁ ↦ ?_
    split
    · exact (evolves_handOver (h₁.modifies.sound hs) x err).bind fun _ _ _ _ ↦ .pure _
    · exact .get_bind (.fail _)

/-- Hooks are collected for one computation. -/
theorem within_collecting {α β : Type} {m : Call α} {k : α → Call β}
    (hm : Sound { e with pendingHooks := some [] } →
      Within Evolves { e with pendingHooks := some [] } m) (hunfailing : Unfailing m)
    (hk : ∀ a (e₁ : Engine), Evolves e { e₁ with pendingHooks := none } →
      Within Evolves { e₁ with pendingHooks := none } (k a)) (hs : e.Sound) :
    Within Evolves e (do
      modify fun e => { e with pendingHooks := some [] }
      let a ← m
      modify fun e => { e with pendingHooks := none }
      k a) := by
  have hstart : Move e { e with pendingHooks := some [] } :=
    .aside rfl rfl rfl rfl rfl fun ht ↦ ⟨ht.evaluator, ht.hooks, ht.options, ht.deferred, by simp⟩
  have hback : ∀ {e₁ : Engine}, Evolves { e with pendingHooks := some [] } e₁ →
      Evolves e { e₁ with pendingHooks := none } := fun {e₁} h₁ ↦ by
    have hstop : Move e₁ { e₁ with pendingHooks := none } :=
      .aside rfl rfl rfl rfl rfl fun ht ↦ ⟨ht.evaluator, ht.hooks, ht.options, ht.deferred, nofun⟩
    exact ⟨(h₁.path.head hstart).tail hstop, h₁.guards, fun _ ↦ rfl⟩
  have hwithin := hm (hs.move hstart)
  intro hreturns
  rcases hrun : m { e with pendingHooks := some [] } with ⟨(err | -) | a, e₁⟩
  · exact absurd (by rw [hrun]) (hunfailing _ err)
  · refine absurd ?_ hreturns
    show ((m >>= fun a ↦ do modify fun e => { e with pendingHooks := none }; k a)
      { e with pendingHooks := some [] }).1 = _
    rw [bind_of_error hrun]
  · have h₁ := hback (hwithin.of_ok hrun)
    have hrest : (do
        modify fun e => { e with pendingHooks := some [] }
        let a ← m
        modify fun e => { e with pendingHooks := none }
        k a : Call β) e = k a { e₁ with pendingHooks := none } := by
      show (m >>= fun a ↦ do modify fun e => { e with pendingHooks := none }; k a)
        { e with pendingHooks := some [] } = _
      rw [bind_of_ok hrun]
      rfl
    rw [hrest] at hreturns ⊢
    exact h₁.trans (hk a e₁ h₁ hreturns)

/-- **Writing.** -/
theorem evolves_suggest (hr : r.Lawful) (hs : e.Sound) (x : VarId) (v : Value) (origin : Origin)
    (force : Bool) : Within Evolves e (suggest r x v origin force) := by
  refine .get_bind ?_
  split
  · exact .pure _
  · next hrunning =>
    rw [Bool.not_eq_true] at hrunning
    refine (recalls_storedValue x).bind_of (fun _ h ↦ h.modifies.evolves) fun old e₁ _ h₁ ↦ ?_
    have hs₁ := h₁.modifies.sound hs
    have hrunning₁ : e₁.guards.runningHooks = false := by rwa [h₁.guards]
    split
    · exact .pure _
    · refine .get_bind ?_
      have hend : ∀ {e₂ : Engine} (w : Written), e₂.Sound → Within Evolves e₂ (do
          w.takeBack
          conclude x v old w.result) := fun w hs₂ ↦
        .lift_bind_of (modifies_takeBack hs₂ w) (fun _ ↦ Modifies.evolves)
          fun _ e₃ _ h₃ ↦ evolves_conclude (h₃.sound hs₂) x v old w.result
      cases e₁.pendingHooks.isNone with
      | false =>
        exact (evolves_absorb hr hs₁ hrunning₁ x v old origin force false).bind
          fun w e₂ _ h₂ ↦ hend w (h₂.sound hs₁)
      | true =>
        refine within_collecting (fun hs₂ ↦ ?_)
          (unfailing_absorb x v old origin force true) (fun w e₂ h₂ ↦ hend w (h₂.sound hs₁)) hs₁
        exact evolves_absorb hr hs₂ hrunning₁ x v old origin force true

end Call

end LiveConstraints

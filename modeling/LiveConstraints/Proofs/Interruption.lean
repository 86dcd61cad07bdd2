import LiveConstraints.Engine.Answering
import LiveConstraints.Proofs.Running
/-!
# Interrupted calls

A call that was interrupted says nothing, so a computation that is interrupted more often than another
one, and does the same otherwise, is an approximation of it (`Call.Below`). The operations that lead
back into the engine are monotone in the ways back: with ways back that are interrupted more often
(`Reentry.Below`), they are interrupted more often and do the same otherwise.

So what is asked of a run can be put as a condition on when the ways back give up. The ways back of
`Reentry.limited` give up where a hook or handler would make requests and, if they are strict, where a
call on the way fails.
-/

namespace LiveConstraints

variable {α β : Type} {r r' : Reentry}

namespace Call

/-- A computation that is interrupted, or does what another one does. -/
def Below (m m' : Call α) : Prop := ∀ e, (m e).1 ≠ .error .tooDeep → m' e = m e

namespace Below

variable {m m' m'' : Call α} {f f' : α → Call β}

theorem refl (m : Call α) : Below m m := fun _ _ ↦ rfl

theorem tooDeep (m : Call α) : Below (throw .tooDeep) m := fun _ hne ↦ absurd rfl hne

theorem trans (h : Below m m') (h' : Below m' m'') : Below m m'' := fun e hne ↦ by
  have hm := h e hne
  rw [h' e (hm ▸ hne), hm]

theorem bind (hm : Below m m') (hf : ∀ a, Below (f a) (f' a)) : Below (m >>= f) (m' >>= f') := by
  intro e hne
  rcases hrun : m e with ⟨halt | a, e₁⟩
  · rw [bind_of_error hrun] at hne ⊢
    refine bind_of_error ?_
    rw [hm e (by rw [hrun]; rintro ⟨⟩; exact hne rfl), hrun]
  · rw [bind_of_ok hrun] at hne ⊢
    rw [bind_of_ok ((hm e (by rw [hrun]; nofun)).trans hrun), hf a e₁ hne]

/-- Nothing follows on a failure. -/
theorem fail_bind {err : EngineError} : Below ((fail err : Call α) >>= f) (fail err >>= f') :=
  fun _ _ ↦ rfl

/-- What follows a computation that has nothing to do with the ways back. -/
theorem after (hf : ∀ a, Below (f a) (f' a)) : Below (m >>= f) (m >>= f') := (refl m).bind hf

/-- What precedes a computation that has nothing to do with the ways back. -/
theorem before (hm : Below m m') : Below (m >>= f) (m' >>= f) := hm.bind fun _ ↦ refl _

theorem attempt (h : Below m m') : Below (attempt m) (attempt m') := by
  intro e hne
  have hreturned : (m e).1 ≠ .error .tooDeep := by
    intro hdeep
    rcases hrun : m e with ⟨_, e₁⟩
    obtain rfl : _ = _ := (congrArg Prod.fst hrun).symm.trans hdeep
    exact hne (by simp [Call.attempt, hrun])
  rw [Call.attempt, Call.attempt, h e hreturned]

theorem get_bind {f f' : Engine → Call β} (h : ∀ e, Below (f e) (f' e)) :
    Below (get >>= f) (get >>= f') := fun e ↦ h e e

theorem ite {p : Prop} [Decidable p] {n n' : Call α} (h : Below m m') (h' : Below n n') :
    Below (if p then m else n) (if p then m' else n') := by
  split
  · exact h
  · exact h'

theorem forIn {l : List α} {b : β} {f f' : α → β → Call (ForInStep β)}
    (h : ∀ a b, Below (f a b) (f' a b)) : Below (forIn l b f) (forIn l b f') := by
  induction l generalizing b with
  | nil => exact refl _
  | cons a l ih =>
    rw [List.forIn_cons, List.forIn_cons]
    refine (h a b).bind fun step ↦ ?_
    cases step with
    | done b => exact refl _
    | yield b => exact ih

theorem forM {l : List α} {f f' : α → Call PUnit} (h : ∀ a, Below (f a) (f' a)) :
    Below (l.forM f) (l.forM f') := by
  induction l with
  | nil => exact refl _
  | cons a l ih => exact (h a).bind fun _ ↦ ih

end Below

end Call

/-- The ways back into the engine are interrupted, or do what others do. -/
structure Reentry.Below (r r' : Reentry) : Prop where
  patience : r.patience = r'.patience
  suggest : ∀ x v origin force,
    Call.Below (r.suggest x v origin force) (r'.suggest x v origin force)
  recalculate : ∀ id, Call.Below (r.recalculate id) (r'.recalculate id)
  act : ∀ requests, Call.Below (r.act requests) (r'.act requests)

/-! ### Operations are monotone in the ways back -/

namespace Call

theorem below_splitInto (hr : r.Below r') (v : Value) (parts : List (String × VarId)) :
    Below (splitInto r v parts) (splitInto r' v parts) := by
  refine .forM fun ⟨name, part⟩ ↦ ?_
  dsimp only
  split
  · exact .before (hr.suggest _ _ _ _)
  · exact .refl _

theorem below_updateUnbound (hr : r.Below r') (x : VarId) (v : Value) :
    Below (updateUnbound r x v) (updateUnbound r' x v) := by
  refine .after fun w ↦ .after fun replaces ↦ .ite (.get_bind fun e ↦ ?_) (.get_bind fun e ↦ ?_)
  · refine .ite (.after fun _ ↦ ?_) (.refl _)
    exact .before (below_splitInto hr v _).attempt
  · exact .after fun _ ↦ .before (.forIn fun id _ ↦ .before (hr.recalculate id))

theorem below_updateConnected (hr : r.Below r') (x : VarId) :
    Below (updateConnected r x) (updateConnected r' x) := by
  refine .after fun w ↦ .get_bind fun e ↦ .before (.forIn fun y _ ↦ .get_bind fun e₁ ↦ .ite ?_ (.refl _))
  exact .after fun v ↦ .before (hr.suggest y v _ _)

theorem below_putBack (hr : r.Below r') (x : VarId) (old : Value) :
    Below (putBack r x old) (putBack r' x old) := .before (hr.suggest x old _ _).attempt

theorem below_spread (hr : r.Below r') (x : VarId) (v old : Value) (origin : Origin) :
    Below (spread r x v old origin) (spread r' x v old origin) := by
  refine .get_bind fun e ↦ .ite (.refl _) (.after fun _ ↦ ?_)
  refine .bind (.attempt (.after fun _ ↦ ?_)) fun result ↦ .after fun _ ↦ ?_
  · exact (below_updateUnbound hr x v).bind fun _ ↦ below_updateConnected hr x
  · cases result with
    | ok _ => exact .refl _
    | error err => exact .ite (.before (below_putBack hr x old)) (.refl _)

theorem below_propagate (hr : r.Below r') (x : VarId) (v old : Value) (origin : Origin)
    (force : Bool) : Below (propagate r x v old origin force) (propagate r' x v old origin force) := by
  have hspread := below_spread hr x v old origin
  exact .ite (.after fun stored ↦ .ite (.refl _) hspread) hspread

theorem below_reconcile (hr : r.Below r') (compare : Bool) (xs : List VarId) :
    Below (reconcile r compare xs) (reconcile r' compare xs) := by
  induction xs with
  | nil => exact .refl _
  | cons x xs ih =>
    unfold reconcile
    refine .get_bind fun e ↦ ?_
    split
    · exact ih
    · refine .after fun new ↦ .ite (.after fun _ ↦ ?_) (.before ih)
      exact (below_propagate hr x new _ _ _).bind fun _ ↦ .before ih

theorem below_enable (hr : r.Below r') (id : ConstraintId) (compare : Bool) :
    Below (enable r id compare) (enable r' id compare) := by
  refine .after fun c ↦ .ite (.refl _) ?_
  dsimp only
  refine .ite (.get_bind fun _ ↦ .fail_bind) (.after fun _ ↦ .after fun result ↦ ?_)
  cases result with
  | error err => exact .refl _
  | ok _ =>
    exact .after fun _ ↦ .after fun _ ↦ .after fun c ↦ .before (below_reconcile hr compare c.vars)

theorem below_enableTransplanted (hr : r.Below r') (id : ConstraintId) (s : SolverId)
    (ps : List Primitive) : Below (enableTransplanted r id s ps) (enableTransplanted r' id s ps) := by
  have henable := below_enable hr id false
  refine henable.attempt.bind fun result ↦ ?_
  cases result with
  | ok _ => exact .refl _
  | error err => exact .after fun _ ↦ .after fun _ ↦ henable

theorem below_recalculate (hr : r.Below r') (id : ConstraintId) :
    Below (recalculate r id) (recalculate r' id) := by
  refine .after fun c ↦ .ite (.refl _) (.after fun _ ↦ .after fun _ ↦ .after fun reached ↦ ?_)
  refine .after fun _ ↦ .after fun transplants ↦ .before ?_
  exact (below_enableTransplanted hr id c.solver transplants).attempt

/-! ### Selection -/

theorem below_measure (hr : r.Below r') (id : ConstraintId) (s : SolverId) :
    Below (measure r id s) (measure r' id s) :=
  .get_bind fun _ ↦ .after fun _ ↦ .before (.before (below_enable hr id true).attempt)

theorem below_chooseConstraint (hr : r.Below r') (candidates : List ConstraintId)
    (keep : Option ConstraintId) (options : ConstraintOptions) :
    Below (chooseConstraint r candidates keep options)
      (chooseConstraint r' candidates keep options) := by
  refine .after fun _ ↦ .before (.forIn fun id acc ↦ .get_bind fun e ↦ ?_)
  split
  · exact .refl _
  · exact .before (below_measure hr id _)

theorem below_reevaluate (hr : r.Below r') (id : ConstraintId) :
    Below (reevaluate r id) (reevaluate r' id) := by
  refine .after fun c ↦ .get_bind fun e ↦ .after fun _ ↦ .after fun solvers ↦ .ite (.refl _) ?_
  refine .after fun built ↦ .ite (.refl _) ?_
  refine .bind (below_chooseConstraint hr _ _ _) fun chosen ↦ .after fun _ ↦ ?_
  obtain ⟨_ | w, _⟩ := chosen
  · exact .ite (below_enable hr id false) (.refl _)
  · dsimp only
    exact .ite (.after fun _ ↦ .ite (below_enable hr id false) (.refl _))
      (.ite (below_enable hr id false) (.refl _))

/-! ### Writing -/

theorem below_runHooks (hr : r.Below r') : Below (runHooks r) (runHooks r') := by
  refine .get_bind fun e ↦ .after fun _ ↦ .after fun _ ↦ .before (.forM fun h ↦ .after fun result ↦ ?_)
  cases result with
  | error err => exact .refl _
  | ok v => exact .after fun _ ↦ hr.act h.hook

theorem below_countWrite (hr : r.Below r') (id : ConstraintId) :
    Below (countWrite r id) (countWrite r' id) :=
  .after fun _ ↦ .after fun _ ↦ .ite (.before (below_reevaluate hr id)) (.refl _)

theorem below_followUp (hr : r.Below r') (x : VarId) (v old : Value) (origin : Origin)
    (force outermost : Bool) (initiating : Option ConstraintId) :
    Below (followUp r x v old origin force outermost initiating)
      (followUp r' x v old origin force outermost initiating) := by
  have hrest : Below (do
      propagate r x v old origin force
      collectHook x
      if outermost then runHooks r) (do
      propagate r' x v old origin force
      collectHook x
      if outermost then runHooks r') :=
    (below_propagate hr x v old origin force).bind fun _ ↦ .after fun _ ↦
      .ite (below_runHooks hr) (.refl _)
  cases initiating with
  | none => exact hrest
  | some id => exact (below_countWrite hr id).bind fun _ ↦ hrest

theorem below_absorb (hr : r.Below r') (x : VarId) (v old : Value) (origin : Origin)
    (force outermost : Bool) :
    Below (absorb r x v old origin force outermost) (absorb r' x v old origin force outermost) := by
  refine .after fun d ↦ .after fun initiating ↦ ?_
  have hfollow := (below_followUp hr x v old origin force outermost initiating).attempt
  cases d with
  | none => exact .before (f := fun result ↦ pure (Written.mk initiating none result)) hfollow
  | some d =>
    refine .after fun primary ↦ ?_
    rcases primary with ⟨bumped, err | _⟩
    · exact .refl _
    · exact .before (f := fun result ↦ pure (Written.mk initiating bumped result)) hfollow

theorem below_suggest (hr : r.Below r') (x : VarId) (v : Value) (origin : Origin) (force : Bool) :
    Below (suggest r x v origin force) (suggest r' x v origin force) := by
  refine .get_bind fun e ↦ .ite (.refl _) (.after fun old ↦ .ite (.refl _) (.get_bind fun e₁ ↦ ?_))
  have habsorb := below_absorb hr x v old origin force e₁.pendingHooks.isNone
  exact .ite (.after fun _ ↦ .before habsorb) (.before habsorb)

theorem below_drain (hr : r.Below r') (n : Nat) (failures : List EngineError) :
    Below (drain r n failures) (drain r' n failures) := by
  induction n generalizing failures with
  | zero => exact .refl _
  | succ n ih =>
    refine .after fun work ↦ ?_
    match work with
    | none => exact .refl _
    | some (.handle handler errors) =>
      exact .bind (.after fun _ ↦ hr.act handler.actions) fun _ ↦ ih _
    | some (.rethrow _) => exact ih _

theorem below_settle (hr : r.Below r') : Below (settle r) (settle r') := by
  refine .get_bind fun e ↦ .ite (.refl _) (.after fun _ ↦ ?_)
  rw [← hr.patience]
  exact .before (below_drain hr r.patience [])

theorem below_topLevel (hr : r.Below r') {m m' : Call α} (h : Below m m') :
    Below (topLevel r m) (topLevel r' m') :=
  .after fun _ ↦ h.attempt.bind fun _ ↦ .after fun _ ↦ .before (below_settle hr).attempt

theorem below_reselect (hr : r.Below r') (id : ConstraintId) : Below (reselect r id) (reselect r' id) :=
  below_topLevel hr (below_reevaluate hr id)

/-! ### Giving up -/

/-- Runs a call that has to succeed: its failure interrupts. -/
def insist (m : Call α) : Call α := fun e =>
  match m e with
  | (.error (.failed _), e) => (.error .tooDeep, e)
  | outcome => outcome

theorem below_insist (m : Call α) : Below (insist m) m := fun e hne ↦ by
  unfold insist at hne ⊢
  split
  · next hrun =>
    rw [hrun] at hne
    exact absurd rfl hne
  · rfl

/-- What a call that succeeds leads to is what one that has to succeed leads to. -/
theorem Within.insist {R : Engine → Engine → Prop} {e : Engine} {m : Call α}
    (h : ∀ a e', m e = (.ok a, e') → R e e') : Within R e (insist m) := by
  intro hne
  unfold Call.insist at hne ⊢
  rcases hrun : m e with ⟨(err | -) | a, e'⟩ <;> rw [hrun] at hne
  · exact absurd rfl hne
  · exact absurd rfl hne
  · exact h a e' hrun

end Call

namespace Reentry

/-- The ways back into the engine when `n` more calls may be nested, and neither a hook nor a handler
may make a request. If they are strict, no call on the way may fail either. -/
def limited (strict : Bool) : Nat → Reentry
  | 0 => exhausted
  | n + 1 => {
    patience := n + 1
    suggest := fun x v origin force =>
      let call := Call.suggest (limited strict n) x v origin force
      if strict then Call.insist call else call
    recalculate := fun id =>
      let call := Call.recalculate (limited strict n) id
      if strict then Call.insist call else call
    act := fun _ => throw .tooDeep }

/-- The limited ways back do what the ordinary ones do, or give up. -/
theorem below_limited (strict : Bool) (n : Nat) : (limited strict n).Below (ofDepth n) := by
  induction n with
  | zero => exact ⟨rfl, fun _ _ _ _ ↦ .refl _, fun _ ↦ .refl _, fun _ ↦ .refl _⟩
  | succ n ih =>
    refine ⟨rfl, fun x v origin force ↦ ?_, fun id ↦ ?_, fun _ ↦ .tooDeep _⟩
    · have hsuggest := Call.below_suggest ih x v origin force
      cases strict with
      | true => exact (Call.below_insist _).trans hsuggest
      | false => exact hsuggest
    · have hrecalculate := Call.below_recalculate ih id
      cases strict with
      | true => exact (Call.below_insist _).trans hrecalculate
      | false => exact hrecalculate

end Reentry

end LiveConstraints

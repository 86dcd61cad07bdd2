import LiveConstraints.Engine.Call
import Mathlib.Order.Defs.Unbundled
/-!
# Running calls

How steps and calls run, and what it means for a computation to stay within a relation between the
engine before and the engine after (`Step.Within`, `Call.Within`). The relation is a preorder, so a
sequence stays within it when its parts do; each part starts from wherever the parts before it led,
and may use that it is related to the start.

A call that was interrupted because calls were nested too deeply did not return, and nothing is said
about the engine it leaves behind.
-/

namespace LiveConstraints

variable {α β : Type} {R R' : Engine → Engine → Prop} {e e' : Engine}

/-! ### Steps -/

namespace Step

/-- A step leads from an engine to a related one. -/
def Within (R : Engine → Engine → Prop) (e : Engine) (m : Step α) : Prop := R e (m e).2

variable {m : Step α} {f : α → Step β}

theorem bind_run (m : Step α) (f : α → Step β) (e : Engine) : (m >>= f) e = f (m e).1 (m e).2 := rfl

theorem Within.mono (h : Within R e m) (hR : ∀ e', R e e' → R' e e') : Within R' e m := hR _ h

/-- What a sequence does is what its parts do, one after another. -/
theorem Within.seq {S T : Engine → Engine → Prop} (hm : Within S e m)
    (hf : ∀ a e', S e e' → Within T e' (f a)) (hR : ∀ e₁ e₂, S e e₁ → T e₁ e₂ → R e e₂) :
    Within R e (m >>= f) := hR _ _ hm (hf _ _ hm)

theorem get_run (f : Engine → Step β) (e : Engine) : (get >>= f) e = f e e := rfl

/-- Reading the engine leaves it as it is. -/
theorem Within.get_bind {f : Engine → Step β} (h : Within R e (f e)) : Within R e (get >>= f) := h

/-- What follows a change starts at the changed engine. -/
theorem Within.of_modify {g : Engine → Engine} {k : PUnit → Step β}
    (h : Within (fun _ ↦ R e) (g e) (k ⟨⟩)) : Within R e (modify g >>= k) := h

section Preorder

variable [IsPreorder Engine R]

theorem Within.pure (a : α) : Within R e (pure a) := refl_of R e

/-- The second part of a sequence runs where the first one ended. -/
theorem Within.bind (hm : Within R e m)
    (hf : ∀ a e', m e = (a, e') → R e e' → Within R e' (f a)) : Within R e (m >>= f) :=
  trans_of R hm (hf _ _ rfl hm)

/-- What follows a change, within a relation that the change is in. -/
theorem Within.modify_bind {g : Engine → Engine} {k : PUnit → Step β} (hm : R e (g e))
    (hk : Within R (g e) (k ⟨⟩)) : Within R e (modify g >>= k) := trans_of R hm hk

/-- A loop stays within a relation when each round does, wherever the rounds before it led. -/
theorem Within.forIn {l : List α} {b : β} {f : α → β → Step (ForInStep β)}
    (h : ∀ a ∈ l, ∀ b e', R e e' → Within R e' (f a b)) : Within R e (forIn l b f) := by
  induction l generalizing b e with
  | nil => exact .pure b
  | cons a l ih =>
    rw [List.forIn_cons]
    have hfirst := h a List.mem_cons_self b e (refl_of R e)
    refine hfirst.bind fun step e' _ he ↦ ?_
    cases step with
    | done b => exact .pure b
    | yield b => exact ih fun a ha b e'' he' ↦ h a (List.mem_cons_of_mem _ ha) b e'' (trans_of R he he')

theorem Within.forM {l : List α} {f : α → Step PUnit}
    (h : ∀ a ∈ l, ∀ e', R e e' → Within R e' (f a)) : Within R e (l.forM f) := by
  induction l generalizing e with
  | nil => exact .pure _
  | cons a l ih =>
    have hfirst := h a List.mem_cons_self e (refl_of R e)
    refine hfirst.bind fun _ e' _ he ↦ ih fun a ha e'' he' ↦ ?_
    exact h a (List.mem_cons_of_mem _ ha) e'' (trans_of R he he')

theorem Within.mapM {l : List α} {f : α → Step β}
    (h : ∀ a ∈ l, ∀ e', R e e' → Within R e' (f a)) : Within R e (l.mapM f) := by
  rw [← List.mapM'_eq_mapM]
  induction l generalizing e with
  | nil => exact .pure _
  | cons a l ih =>
    rw [List.mapM'_cons]
    have hfirst := h a List.mem_cons_self e (refl_of R e)
    refine hfirst.bind fun b e' _ he ↦ Within.bind (ih fun a ha e'' he' ↦ ?_) fun _ _ _ _ ↦ .pure _
    exact h a (List.mem_cons_of_mem _ ha) e'' (trans_of R he he')

end Preorder

end Step

/-! ### Calls -/

namespace Call

/-- A call that returns leads from an engine to a related one. -/
def Within (R : Engine → Engine → Prop) (e : Engine) (m : Call α) : Prop :=
  (m e).1 ≠ .error .tooDeep → R e (m e).2

variable {m : Call α} {f : α → Call β}

theorem bind_of_ok {a : α} (h : m e = (.ok a, e')) : (m >>= f) e = f a e' := by
  simp [Bind.bind, ExceptT.bind, ExceptT.mk, StateT.bind, ExceptT.bindCont, h]

theorem bind_of_error {halt : Halt} (h : m e = (.error halt, e')) :
    (m >>= f) e = (.error halt, e') := by
  simp [Bind.bind, ExceptT.bind, ExceptT.mk, StateT.bind, ExceptT.bindCont, h]
  rfl

/-- A sequence that succeeded is a success followed by a success. -/
theorem of_bind_ok {b : β} (h : (m >>= f) e = (.ok b, e')) :
    ∃ a e₁, m e = (.ok a, e₁) ∧ f a e₁ = (.ok b, e') := by
  rcases hrun : m e with ⟨halt | a, e₁⟩
  · rw [bind_of_error hrun] at h
    cases h
  · rw [bind_of_ok hrun] at h
    exact ⟨a, e₁, rfl, h⟩

/-- Two first parts that do the same, each where it starts. -/
theorem bind_run_congr {m' : Call α} (h : m e = m' e') (f : α → Call β) :
    (m >>= f) e = (m' >>= f) e' := by
  rcases hrun : m' e' with ⟨halt | a, e₁⟩
  · rw [bind_of_error hrun, bind_of_error (h.trans hrun)]
  · rw [bind_of_ok hrun, bind_of_ok (h.trans hrun)]

theorem get_run (f : Engine → Call β) (e : Engine) : (get >>= f) e = f e e := rfl

theorem lift_run (m : Step α) (e : Engine) : (liftM m : Call α) e = (.ok (m e).1, (m e).2) := rfl

/-- A loop of steps is a step. -/
theorem forIn_run {l : List α} {b : β} {f : α → β → Call (ForInStep β)}
    {g : α → β → Step (ForInStep β)} (h : ∀ a b e, f a b e = (.ok (g a b e).1, (g a b e).2)) :
    (forIn l b f : Call β) e = (.ok (forIn l b g e).1, (forIn l b g e).2) := by
  induction l generalizing b e with
  | nil => rfl
  | cons a l ih =>
    rw [List.forIn_cons, List.forIn_cons, bind_of_ok (h a b e), Step.bind_run]
    cases (g a b e).1 with
    | done b => rfl
    | yield b => exact ih

/-- A loop of steps stays within a relation if the step does. -/
theorem Within.forIn_of_step {l : List α} {b : β} {f : α → β → Call (ForInStep β)}
    {g : α → β → Step (ForInStep β)} (hg : Step.Within R e (forIn l b g))
    (h : ∀ a b e, f a b e = (.ok (g a b e).1, (g a b e).2)) : Within R e (forIn l b f) := by
  rw [Within, forIn_run h]
  exact fun _ ↦ hg

theorem Within.mono (h : Within R e m) (hR : ∀ e', R e e' → R' e e') : Within R' e m :=
  fun hne ↦ hR _ (h hne)

theorem Within.of_ok {a : α} (h : Within R e m) (hm : m e = (.ok a, e')) : R e e' := by
  have hR := h (by rw [hm]; nofun)
  rwa [hm] at hR

/-- Reading the engine leaves it as it is. -/
theorem Within.get_bind {f : Engine → Call β} (h : Within R e (f e)) : Within R e (get >>= f) := h

theorem Within.lift {m : Step α} (h : m.Within R e) : Within R e (liftM m) := fun _ ↦ h

/-- A first part of which the outcome is known; what is claimed is about the end alone. -/
theorem Within.ok_bind {P : Engine → Prop} {e₁ : Engine} {a : α} (hm : m e = (.ok a, e₁))
    (hf : Within (fun _ ↦ P) e₁ (f a)) : Within (fun _ ↦ P) e (m >>= f) := by
  rw [Within, bind_of_ok hm]
  exact hf

theorem Within.tooDeep : Within R e (throw .tooDeep : Call α) := fun hne ↦ absurd rfl hne

/-- Handing a failure over changes nothing. -/
theorem Within.attempt (h : Within R e m) : Within R e (attempt m) := by
  intro hne
  unfold Call.attempt at hne ⊢
  rcases hrun : m e with ⟨(err | -) | a, e'⟩ <;> simp only [hrun] at hne ⊢
  · have hR := h (by rw [hrun]; nofun)
    rwa [hrun] at hR
  · exact absurd rfl hne
  · exact h.of_ok hrun

/-- A call whose failure is handed over does not fail. -/
theorem attempt_ne_failed (m : Call α) (e : Engine) (err : EngineError) :
    (attempt m e).1 ≠ .error (.failed err) := by
  unfold attempt
  rcases m e with ⟨(err' | -) | a, e'⟩ <;> nofun

/-- A call whose success was handed over succeeded. -/
theorem of_attempt_ok {a : α} (h : attempt m e = (.ok (.ok a), e')) : m e = (.ok a, e') := by
  unfold attempt at h
  rcases hrun : m e with ⟨(err | -) | b, e''⟩ <;> simp only [hrun] at h <;> cases h
  rfl

/-- A call whose failure was handed over failed. -/
theorem of_attempt_error {err : EngineError} (h : attempt m e = (.ok (.error err), e')) :
    m e = (.error (.failed err), e') := by
  unfold attempt at h
  rcases hrun : m e with ⟨(err' | -) | b, e''⟩ <;> simp only [hrun] at h <;> cases h
  rfl

/-- A computation in two parts, handing over what failed. -/
theorem attempt_bind (m : Call α) (f : α → Call β) : attempt (m >>= f) = (do
    match ← attempt m with
    | .ok a => attempt (f a)
    | .error err => return .error err) := by
  funext e
  rcases hrun : m e with ⟨(err | -) | a, e₁⟩
  · rw [attempt_failed (bind_of_error hrun), bind_of_ok (attempt_failed hrun)]
    rfl
  · have hdeep : attempt m e = (.error .tooDeep, e₁) := by simp [attempt, hrun]
    rw [bind_of_error hdeep, attempt, bind_of_error hrun]
  · rw [bind_of_ok (attempt_ok hrun)]
    simp only [attempt, bind_of_ok hrun]

/-- A call that does not fail, though it may be interrupted. -/
def Unfailing (m : Call α) : Prop := ∀ e err, (m e).1 ≠ .error (.failed err)

theorem unfailing_attempt (m : Call α) : Unfailing (attempt m) := attempt_ne_failed m

theorem Unfailing.pure (a : α) : Unfailing (pure a) := by
  intro e err h
  cases (show (.ok a : Except Halt α) = .error (.failed err) from h)

theorem Unfailing.lift (m : Step α) : Unfailing (liftM m) := by
  intro e err h
  rw [lift_run] at h
  cases h

theorem Unfailing.tooDeep : Unfailing (throw .tooDeep : Call α) := by
  intro e err h
  cases (show (.error .tooDeep : Except Halt α) = .error (.failed err) from h)

theorem Unfailing.bind (hm : Unfailing m) (hf : ∀ a, Unfailing (f a)) : Unfailing (m >>= f) := by
  intro e err
  rcases hrun : m e with ⟨halt | a, e₁⟩
  · rw [bind_of_error hrun]
    rintro ⟨⟩
    exact hm e err (by rw [hrun])
  · rw [bind_of_ok hrun]
    exact hf a e₁ err

/-- A first part that does not fail; what is claimed is about the end alone. -/
theorem Unfailing.within_bind {P : Engine → Prop} (hm : Unfailing m)
    (hf : ∀ a e', m e = (.ok a, e') → Within (fun _ ↦ P) e' (f a)) :
    Within (fun _ ↦ P) e (m >>= f) := by
  rcases hrun : m e with ⟨(err | -) | a, e'⟩
  · exact absurd (by rw [hrun]) (hm e err)
  · rw [Within, bind_of_error hrun]
    exact fun hne ↦ absurd rfl hne
  · exact .ok_bind hrun (hf a e' hrun)

theorem Unfailing.get_bind {f : Engine → Call β} (hf : ∀ e, Unfailing (f e)) :
    Unfailing (get >>= f) := fun e ↦ hf e e

theorem Unfailing.forM {l : List α} {f : α → Call PUnit} (h : ∀ a ∈ l, Unfailing (f a)) :
    Unfailing (l.forM f) := by
  induction l with
  | nil => exact .pure _
  | cons a l ih =>
    exact (h a List.mem_cons_self).bind fun _ ↦ ih fun b hb ↦ h b (List.mem_cons_of_mem _ hb)

theorem Unfailing.forIn {l : List α} {b : β} {f : α → β → Call (ForInStep β)}
    (h : ∀ a b, Unfailing (f a b)) : Unfailing (forIn l b f) := by
  induction l generalizing b with
  | nil => exact .pure _
  | cons a l ih =>
    rw [List.forIn_cons]
    refine (h a b).bind fun step ↦ ?_
    cases step with
    | done b => exact .pure _
    | yield b => exact ih

/-- What a sequence does is what its first part does, or what both do one after the other. -/
theorem Within.seq {R₁ R₂ : Engine → Engine → Prop} (hm : Within R₁ e m)
    (hfirst : ∀ e', R₁ e e' → R e e')
    (hf : ∀ a e', m e = (.ok a, e') → R₁ e e' → Within R₂ e' (f a))
    (hR : ∀ e₁ e₂, R₁ e e₁ → R₂ e₁ e₂ → R e e₂) : Within R e (m >>= f) := by
  intro hne
  rcases hrun : m e with ⟨a | halt, e'⟩
  · rw [bind_of_error hrun] at hne ⊢
    have hreturned : (m e).1 ≠ .error .tooDeep := by
      rw [hrun]
      rintro ⟨⟩
      exact hne rfl
    have hR₁ := hm hreturned
    rw [hrun] at hR₁
    exact hfirst e' hR₁
  · rw [bind_of_ok hrun] at hne ⊢
    have hR₁ := hm.of_ok hrun
    exact hR _ _ hR₁ (hf _ _ hrun hR₁ hne)

section Preorder

variable [IsPreorder Engine R]

theorem Within.pure (a : α) : Within R e (pure a) := fun _ ↦ refl_of R e

theorem Within.fail (err : EngineError) : Within R e (fail err : Call α) := fun _ ↦ refl_of R e

/-- Nothing follows on a failure. -/
theorem Within.fail_bind {err : EngineError} {f : α → Call β} :
    Within R e ((Call.fail err : Call α) >>= f) := fun _ ↦ refl_of R e

theorem Within.ofExcept (r : Except EngineError α) : Within R e (ofExcept r) := by
  cases r with
  | ok a => exact .pure a
  | error err => exact .fail err

/-- The second part of a sequence runs where the first one ended, if it runs at all. -/
theorem Within.bind (hm : Within R e m)
    (hf : ∀ a e', m e = (.ok a, e') → R e e' → Within R e' (f a)) : Within R e (m >>= f) :=
  hm.seq (fun _ h ↦ h) hf fun _ _ ↦ trans_of R

/-- A step before a call. -/
theorem Within.lift_bind {m : Step α} {f : α → Call β} (hm : m.Within R e)
    (hf : ∀ a e', m e = (a, e') → R e e' → Within R e' (f a)) : Within R e (liftM m >>= f) :=
  (Within.lift hm).bind fun a e' hrun hR ↦ by
    rw [lift_run] at hrun
    obtain ⟨hok, rfl⟩ := Prod.mk.inj hrun
    cases hok
    exact hf _ _ rfl hR

/-- A first part that is known to do less than the whole. -/
theorem Within.bind_of (hm : Within R' e m) (hR : ∀ e', R' e e' → R e e')
    (hf : ∀ a e', m e = (.ok a, e') → R' e e' → Within R e' (f a)) : Within R e (m >>= f) :=
  (hm.mono hR).bind fun a e' hrun _ ↦ hf a e' hrun (hm.of_ok hrun)

/-- A first step that is known to do less than the whole. -/
theorem Within.lift_bind_of {m : Step α} {f : α → Call β} (hm : m.Within R' e)
    (hR : ∀ e', R' e e' → R e e')
    (hf : ∀ a e', m e = (a, e') → R' e e' → Within R e' (f a)) : Within R e (liftM m >>= f) :=
  lift_bind (hm.mono hR) fun a e' hrun _ ↦ hf a e' hrun (by rwa [Step.Within, hrun] at hm)

theorem Within.modify_bind {g : Engine → Engine} {f : PUnit → Call β} (hm : R e (g e))
    (hf : Within R (g e) (f ⟨⟩)) : Within R e (modify g >>= f) :=
  fun hne ↦ trans_of R hm (hf hne)

theorem Within.forIn {l : List α} {b : β} {f : α → β → Call (ForInStep β)}
    (h : ∀ a ∈ l, ∀ b e', R e e' → Within R e' (f a b)) : Within R e (forIn l b f) := by
  induction l generalizing b e with
  | nil => exact .pure b
  | cons a l ih =>
    rw [List.forIn_cons]
    have hfirst := h a List.mem_cons_self b e (refl_of R e)
    refine hfirst.bind fun step e' _ he ↦ ?_
    cases step with
    | done b => exact .pure b
    | yield b =>
      exact ih fun a ha b e'' he' ↦ h a (List.mem_cons_of_mem _ ha) b e'' (trans_of R he he')

theorem Within.forM {l : List α} {f : α → Call PUnit}
    (h : ∀ a ∈ l, ∀ e', R e e' → Within R e' (f a)) : Within R e (l.forM f) := by
  induction l generalizing e with
  | nil => exact .pure _
  | cons a l ih =>
    have hfirst := h a List.mem_cons_self e (refl_of R e)
    refine hfirst.bind fun _ e' _ he ↦ ih fun a ha e'' he' ↦ ?_
    exact h a (List.mem_cons_of_mem _ ha) e'' (trans_of R he he')

theorem Within.mapM {l : List α} {f : α → Call β}
    (h : ∀ a ∈ l, ∀ e', R e e' → Within R e' (f a)) : Within R e (l.mapM f) := by
  rw [← List.mapM'_eq_mapM]
  induction l generalizing e with
  | nil => exact .pure _
  | cons a l ih =>
    rw [List.mapM'_cons]
    have hfirst := h a List.mem_cons_self e (refl_of R e)
    refine hfirst.bind fun b e' _ he ↦ Within.bind (ih fun a ha e'' he' ↦ ?_) fun _ _ _ _ ↦ .pure _
    exact h a (List.mem_cons_of_mem _ ha) e'' (trans_of R he he')

end Preorder

/-! ### Calls with results -/

/-- A call stays within a relation, and its result is as stated. -/
structure Gives (R : Engine → Engine → Prop) (e : Engine) (m : Call α)
    (Q : α → Engine → Prop) : Prop where
  within : Within R e m
  result : ∀ a e', m e = (.ok a, e') → Q a e'

section Preorder

variable [IsPreorder Engine R] {Q : α → Engine → Prop} {Q' : β → Engine → Prop}

theorem Gives.pure {a : α} (h : Q a e) : Gives R e (pure a) Q where
  within := .pure a
  result _ _ hrun := by
    cases hrun
    exact h

theorem Gives.fail (err : EngineError) : Gives R e (fail err) Q where
  within := .fail err
  result _ _ hrun := nomatch hrun

omit [IsPreorder Engine R] in
theorem Gives.tooDeep : Gives R e (throw .tooDeep : Call α) Q where
  within := .tooDeep
  result a e' h := by
    cases (Prod.mk.inj (show ((.error .tooDeep : Except Halt α), e) = (.ok a, e') from h)).1

/-- The second part of a sequence knows the result of the first. -/
theorem Gives.bind (hm : Gives R e m Q)
    (hf : ∀ a e', R e e' → Q a e' → Gives R e' (f a) Q') : Gives R e (m >>= f) Q' where
  within := hm.within.bind fun a e' hrun he ↦ (hf a e' he (hm.result a e' hrun)).within
  result b e'' hrun := by
    obtain ⟨a, e', hrun₁, hrun₂⟩ := of_bind_ok hrun
    exact (hf a e' (hm.within.of_ok hrun₁) (hm.result a e' hrun₁)).result b e'' hrun₂

/-- A first part of which only the effect matters. -/
theorem Within.bind_gives (hm : Within R e m)
    (hf : ∀ a e', m e = (.ok a, e') → R e e' → Gives R e' (f a) Q') : Gives R e (m >>= f) Q' where
  within := hm.bind fun a e' hrun he ↦ (hf a e' hrun he).within
  result b e'' hrun := by
    obtain ⟨a, e', hrun₁, hrun₂⟩ := of_bind_ok hrun
    exact (hf a e' hrun₁ (hm.of_ok hrun₁)).result b e'' hrun₂

/-- A first part that is known to do less than the whole. -/
theorem Within.bind_gives_of (hm : Within R' e m) (hR : ∀ e', R' e e' → R e e')
    (hf : ∀ a e', m e = (.ok a, e') → R' e e' → Gives R e' (f a) Q') : Gives R e (m >>= f) Q' :=
  (hm.mono hR).bind_gives fun a e' hrun _ ↦ hf a e' hrun (hm.of_ok hrun)

/-- A loop that is not left early. What it keeps may depend on the elements that are still to
come. -/
theorem Gives.forIn_all {P : List α → β → Engine → Prop} {l : List α} {b : β}
    {f : α → β → Call (ForInStep β)} (start : P l b e)
    (h : ∀ a l b e', R e e' → P (a :: l) b e' →
      Gives R e' (f a b) fun step e'' ↦ ∃ b', step = .yield b' ∧ P l b' e'') :
    Gives R e (forIn l b f) (P []) := by
  induction l generalizing b e with
  | nil => exact .pure start
  | cons a l ih =>
    rw [List.forIn_cons]
    refine (h a l b e (refl_of R e) start).bind fun step e' he hstep ↦ ?_
    obtain ⟨b', rfl, hP⟩ := hstep
    exact ih hP fun a l b e'' he' ↦ h a l b e'' (trans_of R he he')

/-- A loop keeps what each round keeps. -/
theorem Gives.forIn {P : β → Engine → Prop} {l : List α} {b : β}
    {f : α → β → Call (ForInStep β)} (start : P b e)
    (h : ∀ a ∈ l, ∀ b e', R e e' → P b e' →
      Gives R e' (f a b) fun step e'' ↦ P step.value e'') : Gives R e (forIn l b f) P := by
  induction l generalizing b e with
  | nil => exact .pure start
  | cons a l ih =>
    rw [List.forIn_cons]
    have hfirst := h a List.mem_cons_self b e (refl_of R e) start
    refine hfirst.bind fun step e' he hstep ↦ ?_
    cases step with
    | done b => exact .pure hstep
    | yield b =>
      exact ih hstep fun a ha b e'' he' ↦ h a (List.mem_cons_of_mem _ ha) b e'' (trans_of R he he')

end Preorder

/-- A computation of which the outcome is known. -/
theorem Gives.of_run {Q : α → Engine → Prop} {a : α} (hrun : m e = (.ok a, e')) (hR : R e e')
    (hQ : Q a e') : Gives R e m Q where
  within _ := by rwa [hrun]
  result b e'' h := by
    cases hrun.symm.trans h
    exact hQ

/-- What a call that does not fail leads to when it returns. -/
theorem Gives.returns {Q : α → Engine → Prop} (h : Gives R e m Q) (hm : Unfailing m)
    (hR : ∀ a e', R e e' → Q a e' → R' e e') : Within R' e m := by
  intro hne
  rcases hrun : m e with ⟨(err | -) | a, e'⟩
  · exact absurd (by rw [hrun]) (hm e err)
  · exact absurd (by rw [hrun]) hne
  · exact hR a e' (h.within.of_ok hrun) (h.result a e' hrun)

/-- Reading the engine leaves it as it is. -/
theorem Gives.get_bind {f : Engine → Call β} {Q : β → Engine → Prop} (h : Gives R e (f e) Q) :
    Gives R e (get >>= f) Q := ⟨h.within, h.result⟩

/-- What follows a change starts at the changed engine. -/
theorem Gives.modify_bind [IsPreorder Engine R] {g : Engine → Engine} {f : PUnit → Call β}
    {Q : β → Engine → Prop} (hR : R e (g e)) (h : Gives R (g e) (f ⟨⟩) Q) :
    Gives R e (modify g >>= f) Q := ⟨.modify_bind hR h.within, h.result⟩

/-! ### Outcomes -/

/-- A call that returns has an outcome as stated. -/
def Yields (e : Engine) (m : Call α) (P : Except Halt α → Engine → Prop) : Prop :=
  (m e).1 ≠ .error .tooDeep → P (m e).1 (m e).2

/-- A call that returns succeeds, with a result as stated. -/
abbrev Succeeds (e : Engine) (m : Call α) (P : α → Engine → Prop) : Prop :=
  Yields e m fun outcome e' ↦ ∃ a, outcome = .ok a ∧ P a e'

section Outcomes

variable {P P' : Except Halt α → Engine → Prop} {Q : Except Halt β → Engine → Prop}

theorem Yields.of_eq {outcome : Except Halt α} (h : Yields e m P) (hm : m e = (outcome, e'))
    (hne : outcome ≠ .error .tooDeep) : P outcome e' := by
  have hP := h (by rwa [hm])
  rwa [hm] at hP

theorem Yields.mono (h : Yields e m P) (hP : ∀ outcome e', P outcome e' → P' outcome e') :
    Yields e m P' := fun hne ↦ hP _ _ (h hne)

theorem Within.yields (h : Within R e m) : Yields e m fun _ e' ↦ R e e' := h

theorem Yields.pure {a : α} (h : P (.ok a) e) : Yields e (pure a) P := fun _ ↦ h

theorem Yields.fail {err : EngineError} (h : P (.error (.failed err)) e) : Yields e (fail err) P :=
  fun _ ↦ h

theorem Yields.get_bind {f : Engine → Call α} (h : Yields e (f e) P) : Yields e (get >>= f) P := h

/-- What follows a change starts at the changed engine. -/
theorem Yields.modify_bind {g : Engine → Engine} {f : PUnit → Call α} (h : Yields (g e) (f ⟨⟩) P) :
    Yields e (modify g >>= f) P := h

/-- What follows a step starts where the step ended. -/
theorem Yields.lift_bind {m : Step α} (h : Yields (m e).2 (f (m e).1) Q) :
    Yields e (liftM m >>= f) Q := by
  rwa [Yields, bind_of_ok (lift_run m e)]

/-- A first part of which the outcome is known. -/
theorem Yields.ok_bind {a : α} {e₁ : Engine} (hm : m e = (.ok a, e₁)) (h : Yields e₁ (f a) Q) :
    Yields e (m >>= f) Q := by
  rwa [Yields, bind_of_ok hm]

theorem Yields.bind (hm : Yields e m P)
    (herror : ∀ err e', P (.error (.failed err)) e' → Q (.error (.failed err)) e')
    (hf : ∀ a e', P (.ok a) e' → Yields e' (f a) Q) : Yields e (m >>= f) Q := by
  intro hne
  rcases hrun : m e with ⟨(err | -) | a, e'⟩
  · rw [bind_of_error hrun]
    exact herror err e' (hm.of_eq hrun nofun)
  · rw [bind_of_error hrun] at hne
    exact absurd rfl hne
  · rw [bind_of_ok hrun] at hne ⊢
    exact hf a e' (hm.of_eq hrun nofun) hne

theorem Succeeds.bind {P : α → Engine → Prop} (hm : Succeeds e m P)
    (hf : ∀ a e', P a e' → Yields e' (f a) Q) : Yields e (m >>= f) Q :=
  Yields.bind hm (fun _ _ ⟨_, h, _⟩ ↦ nomatch h) fun _ e' ⟨_, h, hP⟩ ↦ by
    cases h
    exact hf _ e' hP

/-- A failure that is handed over is a success. -/
theorem Yields.attempt {S : Except EngineError α → Engine → Prop} (h : Yields e m P)
    (hok : ∀ a e', P (.ok a) e' → S (.ok a) e')
    (herror : ∀ err e', P (.error (.failed err)) e' → S (.error err) e') :
    Succeeds e (attempt m) S := by
  intro hne
  rcases hrun : m e with ⟨(err | -) | a, e'⟩
  · rw [attempt_failed hrun]
    exact ⟨_, rfl, herror err e' (h.of_eq hrun (by simp))⟩
  · exact absurd (by simp [Call.attempt, hrun]) hne
  · rw [attempt_ok hrun]
    exact ⟨_, rfl, hok a e' (h.of_eq hrun (by simp))⟩

theorem Succeeds.forIn {P : β → Engine → Prop} {l : List α} {b : β}
    {f : α → β → Call (ForInStep β)} (start : P b e)
    (h : ∀ a ∈ l, ∀ b e', P b e' → Succeeds e' (f a b) fun step e'' ↦ P step.value e'') :
    Succeeds e (forIn l b f) P := by
  induction l generalizing b e with
  | nil => exact .pure ⟨b, rfl, start⟩
  | cons a l ih =>
    rw [List.forIn_cons]
    refine Succeeds.bind (h a List.mem_cons_self b e start) fun step e' hstep ↦ ?_
    cases step with
    | done b => exact .pure ⟨b, rfl, hstep⟩
    | yield b => exact ih hstep fun a ha ↦ h a (List.mem_cons_of_mem _ ha)

/-- What a call that does not fail gives. -/
theorem Gives.succeeds {P : α → Engine → Prop} (h : Gives R e m P) (hm : Unfailing m) :
    Succeeds e m fun a e' ↦ R e e' ∧ P a e' := by
  intro hne
  rcases hrun : m e with ⟨(err | -) | a, e'⟩
  · exact absurd (by rw [hrun]) (hm e err)
  · exact absurd (by rw [hrun]) hne
  · exact ⟨a, rfl, h.within.of_ok hrun, h.result a e' hrun⟩

theorem Within.succeeds (h : Within R e m) (hm : Unfailing m) : Succeeds e m fun _ e' ↦ R e e' := by
  intro hne
  rcases hrun : m e with ⟨(err | -) | a, e'⟩
  · exact absurd (by rw [hrun]) (hm e err)
  · exact absurd (by rw [hrun]) hne
  · exact ⟨a, rfl, h.of_ok hrun⟩

end Outcomes

end Call

end LiveConstraints

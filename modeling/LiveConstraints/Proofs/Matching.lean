import LiveConstraints.Engine.Answering
import LiveConstraints.Proofs.Evolution
/-!
# Computations that do the same

Two computations coincide at an engine if they do the same there (`Call.Coincide`), and they match if they
do wherever a property holds, and lead to a related engine (`Call.Matches`). If the relation keeps the
property (`Engine.Persists`), computations that are put together of matching parts match. So to show that two
ways of going on are the same, it is enough to look at where they differ, and there the property may
be used.
-/

namespace LiveConstraints

open Engine

variable {α β : Type} {e e' : Engine}

/-- A property that a relation keeps. -/
class Engine.Persists (I : Engine → Prop) (R : Engine → Engine → Prop) : Prop where
  keeps : ∀ {e e'}, R e e' → I e → I e'

namespace Call

variable {I P Q : Engine → Prop} {R : Engine → Engine → Prop}

/-- At an engine two computations do the same, and what they lead to if they return has a
property. -/
def Coincide (P : Engine → Prop) (e : Engine) (m m' : Call α) : Prop :=
  m e = m' e ∧ Within (fun _ ↦ P) e m'

/-- At an engine with a property two computations do the same, and what they lead to if they return
is related to it. -/
def Matches (I : Engine → Prop) (R : Engine → Engine → Prop) (e : Engine) (m m' : Call α) : Prop :=
  I e → Coincide (R e) e m m'

namespace Coincide

variable {m m' s : Call α} {f f' : α → Call β}

theorem within (h : Coincide (R e) e m m') : Within R e m' := h.2

theorem mono (h : Coincide Q e m m') (hP : ∀ e', Q e' → P e') : Coincide P e m m' :=
  ⟨h.1, Within.mono h.2 fun _ ↦ hP _⟩

theorem of_eq (h : Coincide P e m m') (heq : s e = m e) : Coincide P e s m' := ⟨heq.trans h.1, h.2⟩

theorem attempt (h : Coincide P e m m') : Coincide P e (attempt m) (Call.attempt m') :=
  ⟨by rw [Call.attempt, Call.attempt, h.1], h.2.attempt⟩

theorem get_bind {f f' : Engine → Call β} (h : Coincide P e (f e) (f' e)) :
    Coincide P e (get >>= f) (get >>= f') := h

/-- A first part of which it is known what it does. -/
theorem known_bind {a : α} (hs : s e = (.ok a, e')) (h : Coincide P e' (f a) (f' a)) :
    Coincide P e (s >>= f) (s >>= f') := by
  rw [Coincide, Within, bind_of_ok hs, bind_of_ok hs]
  exact h

theorem modify_bind {g : Engine → Engine} {k l : PUnit → Call β}
    (h : Coincide P (g e) (k ⟨⟩) (l ⟨⟩)) : Coincide P e (modify g >>= k) (modify g >>= l) := h

/-- A first part that does not fail. Nothing is asked of the engine that it leads to, but of the one
that the whole leads to. -/
theorem unfailing_bind (hm : Coincide Q e m m') (hunfailing : Unfailing m')
    (hf : ∀ a e', m' e = (.ok a, e') → Q e' → Coincide P e' (f a) (f' a)) :
    Coincide P e (m >>= f) (m' >>= f') := by
  obtain ⟨hsame, hwithin⟩ := hm
  rcases hrun : m' e with ⟨(err | -) | a, e'⟩
  · exact absurd (by rw [hrun]) (hunfailing e err)
  · rw [Coincide, Within, bind_of_error hrun, bind_of_error (hsame.trans hrun)]
    exact ⟨rfl, fun hne ↦ absurd rfl hne⟩
  · rw [Coincide, Within, bind_of_ok hrun, bind_of_ok (hsame.trans hrun)]
    exact hf a e' hrun (Within.of_ok hwithin hrun)

end Coincide

namespace Matches

variable {m m' : Call α} {f f' : α → Call β}

theorem of_within (h : Within R e m) : Matches I R e m m := fun _ ↦ ⟨rfl, h⟩

theorem tooDeep : Matches I R e (throw .tooDeep : Call α) (throw .tooDeep) := of_within .tooDeep

theorem get_bind {f f' : Engine → Call β} (h : Matches I R e (f e) (f' e)) :
    Matches I R e (get >>= f) (get >>= f') := h

theorem attempt (h : Matches I R e m m') : Matches I R e (attempt m) (Call.attempt m') :=
  fun hI ↦ (h hI).attempt

variable [IsPreorder Engine R]

theorem pure (a : α) : Matches I R e (pure a) (pure a) := of_within (.pure a)

theorem fail (err : EngineError) : Matches I R e (Call.fail err : Call α) (Call.fail err) :=
  of_within (.fail err)

theorem ofExcept (r : Except EngineError α) : Matches I R e (ofExcept r) (ofExcept r) :=
  of_within (.ofExcept r)

theorem lookup_bind {o : Option α} {err : EngineError} (hm : m e = (found o err, e))
    (h : ∀ a, o = some a → Matches I R e (f a) (f' a)) : Matches I R e (m >>= f) (m >>= f') := by
  cases o with
  | none =>
    rw [Matches, Coincide, bind_of_error hm, Within, bind_of_error hm]
    exact fun _ ↦ ⟨rfl, fun _ ↦ refl_of R e⟩
  | some a => exact fun hI ↦ .known_bind hm (h a rfl hI)

theorem variableAt_bind {x : VarId} {f f' : Variable → Call β}
    (h : ∀ v, e.vars.get? x = some v → Matches I R e (f v) (f' v)) :
    Matches I R e (variableAt x >>= f) (variableAt x >>= f') := lookup_bind (variableAt_eq x e) h

theorem constraintAt_bind {id : ConstraintId} {f f' : Constraint → Call β}
    (h : ∀ c, e.constraints.get? id = some c → Matches I R e (f c) (f' c)) :
    Matches I R e (constraintAt id >>= f) (constraintAt id >>= f') :=
  lookup_bind (constraintAt_eq id e) h

theorem fail_bind {err : EngineError} : Matches I R e ((Call.fail err : Call α) >>= f)
    ((Call.fail err : Call α) >>= f') := by
  rw [Matches, Coincide, bind_of_error (show Call.fail err e = (.error (.failed err), e) from rfl)]
  exact fun _ ↦ ⟨rfl, Within.fail_bind (R := R)⟩

variable [Persists I R]

/-- The second parts run where the first ones ended. -/
theorem bind (hm : Matches I R e m m') (hf : ∀ a e', R e e' → Matches I R e' (f a) (f' a)) :
    Matches I R e (m >>= f) (m' >>= f') := by
  intro hI
  obtain ⟨hsame, hfirst⟩ := hm hI
  have hrest : ∀ a e', R e e' → Coincide (R e') e' (f a) (f' a) :=
    fun a e' h ↦ hf a e' h (Persists.keeps h hI)
  have hwithin : Within R e (m' >>= f') :=
    Within.bind hfirst fun a e' _ h ↦ (hrest a e' h).within
  refine ⟨?_, hwithin⟩
  rcases hrun : m' e with ⟨halt | a, e'⟩
  · rw [bind_of_error hrun, bind_of_error (hsame.trans hrun)]
  · rw [bind_of_ok hrun, bind_of_ok (hsame.trans hrun)]
    exact (hrest a e' (Within.of_ok hfirst hrun)).1

/-- A first part within the relation. -/
theorem within_bind (hm : Within R e m) (hf : ∀ a e', R e e' → Matches I R e' (f a) (f' a)) :
    Matches I R e (m >>= f) (m >>= f') := (of_within hm).bind hf

/-- The same, where it matters what the first part returns. -/
theorem given_bind (hm : Within R e m)
    (hf : ∀ a e', m e = (.ok a, e') → Matches I R e' (f a) (f' a)) :
    Matches I R e (m >>= f) (m >>= f') := by
  intro hI
  rcases hrun : m e with ⟨halt | a, e'⟩
  · rw [Coincide, Within, bind_of_error hrun, bind_of_error hrun]
    rw [Within, hrun] at hm
    refine ⟨rfl, fun hne ↦ hm ?_⟩
    rintro ⟨⟩
    exact hne rfl
  · have h₁ := hm.of_ok hrun
    exact .known_bind hrun ((hf a e' hrun (Persists.keeps h₁ hI)).mono fun _ ↦ trans_of R h₁)

/-- A first step within the relation. -/
theorem step_bind {m : Step α} (hm : m.Within R e) (hf : ∀ a e', Matches I R e' (f a) (f' a)) :
    Matches I R e (liftM m >>= f) (liftM m >>= f') := within_bind (.lift hm) fun a e' _ ↦ hf a e'

/-- The same of a step of which it is known what it does. -/
theorem run_bind {m : Step α} (hm : m.Within R e)
    (hf : Matches I R (m e).2 (f (m e).1) (f' (m e).1)) :
    Matches I R e (liftM m >>= f) (liftM m >>= f') :=
  fun hI ↦ .known_bind (lift_run m e) ((hf (Persists.keeps hm hI)).mono fun _ ↦ trans_of R hm)

/-- A first change within the relation. -/
theorem modify_bind {g : Engine → Engine} {k k' : PUnit → Call β} (hm : R e (g e))
    (hk : Matches I R (g e) (k ⟨⟩) (k' ⟨⟩)) : Matches I R e (modify g >>= k) (modify g >>= k') :=
  fun hI ↦ .modify_bind ((hk (Persists.keeps hm hI)).mono fun _ ↦ trans_of R hm)

theorem forIn {l : List α} {b : β} {f f' : α → β → Call (ForInStep β)}
    (h : ∀ a ∈ l, ∀ b e', Matches I R e' (f a b) (f' a b)) :
    Matches I R e (forIn l b f) (ForIn.forIn l b f') := by
  induction l generalizing b e with
  | nil => exact .pure b
  | cons a l ih =>
    rw [List.forIn_cons, List.forIn_cons]
    refine (h a List.mem_cons_self b e).bind fun step e' _ ↦ ?_
    cases step with
    | done b => exact .pure b
    | yield b => exact ih fun a ha ↦ h a (List.mem_cons_of_mem _ ha)

theorem forM {l : List α} {f f' : α → Call PUnit}
    (h : ∀ a ∈ l, ∀ e', Matches I R e' (f a) (f' a)) : Matches I R e (l.forM f) (l.forM f') := by
  induction l generalizing e with
  | nil => exact .pure _
  | cons a l ih =>
    exact (h a List.mem_cons_self e).bind fun _ e' _ ↦ ih fun a ha ↦ h a (List.mem_cons_of_mem _ ha)

end Matches

end Call

/-- The ways back into the engine match. -/
structure Reentry.Mirrors (I : Engine → Prop) (R : Engine → Engine → Prop) (r r' : Reentry) :
    Prop where
  patience : r.patience = r'.patience
  suggest : ∀ e x v origin force,
    Call.Matches I R e (r.suggest x v origin force) (r'.suggest x v origin force)
  recalculate : ∀ e id, Call.Matches I R e (r.recalculate id) (r'.recalculate id)
  act : ∀ e requests, Call.Matches I R e (r.act requests) (r'.act requests)

theorem Reentry.mirrors_exhausted {I : Engine → Prop} {R : Engine → Engine → Prop} :
    exhausted.Mirrors I R exhausted where
  patience := rfl
  suggest _ _ _ _ _ := .tooDeep
  recalculate _ _ := .tooDeep
  act _ _ := .tooDeep

end LiveConstraints

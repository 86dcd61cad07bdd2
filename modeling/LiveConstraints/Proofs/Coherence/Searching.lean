import LiveConstraints.Proofs.Coherence.Generations
import LiveConstraints.Proofs.Memos
/-!
# What is remembered and what a search may have found

A variable may join a constraint without the generation ticking. The constraint is off then, so if the
variable took part in others already, a search finds the same as before; but if it took part in none,
any solver that it is bound to may have been found to define it, and a search finds none any more. That
is all that what is remembered and what a search finds may differ in (`Engine.Credible`), and it is so
in every engine that is coherent (`Engine.Coherent`).
-/

namespace LiveConstraints

open Engine

variable {e e' : Engine} {x : VarId} {v w : Variable} {s : SolverId} {d : Option Defining}

/-- A variable that takes part in no constraint. -/
def Variable.unconstrained (v : Variable) : Variable := { v with constraints := ∅ }

namespace Engine

/-! ### Coherent engines -/

/-- What a search finds, or what it found before the variable took part in constraints, none of which is
on. -/
def Found (e : Engine) (v : Variable) (d : Option Defining) : Prop :=
  d = e.searchDefining v ∨
    (∀ s, e.enabledConstraint? v s = none) ∧ d = e.searchDefining v.unconstrained

/-- What may be remembered of the defining binding of a variable, if one solver at most has an enabled
constraint on it. -/
structure Credible (e : Engine) (v : Variable) (d : Option Defining) : Prop where
  single : e.constrainingSolvers v ≤ 1
  found : e.Found v d

/-- What counts of what is remembered is credible. -/
structure Coherent (e : Engine) : Prop extends Timely e where
  credible : ∀ {x v d}, e.vars.get? x = some v →
    v.definingMemo = some (e.guards.generation, d) → e.Credible v d

theorem Fresh.coherent (h : e.Fresh) : e.Coherent :=
  ⟨h.toTimely, fun hv hmemo ↦ absurd hmemo (h.stale hv)⟩

/-- Coherent engines stay coherent. -/
def Coheres (e e' : Engine) : Prop := e.Coherent → e'.Coherent

instance : IsPreorder Engine Coheres where
  refl _ h := h
  trans _ _ _ h h' := h' ∘ h

theorem Ticks.coheres (h : Ticks e e') : Coheres e e' := fun hc ↦ (h hc.toTimely).coherent

theorem constrainingSolvers_congr (handles : w.handles = v.handles)
    (enabled : ∀ s, e'.enabledConstraint? w s = e.enabledConstraint? v s) :
    e'.constrainingSolvers w = e.constrainingSolvers v := by
  unfold constrainingSolvers
  rw [handles]
  simp only [enabled]

/-- What may be remembered depends on what searches depend on. -/
theorem Credible.congr (h : e.Credible v d) (handles : w.handles = v.handles)
    (constraints : w.constraints = v.constraints) (enabled : e'.enabledFor = e.enabledFor)
    (weight : ∀ b ∈ v.handles, e'.weight? b.1 = e.weight? b.1) : e'.Credible w d := by
  have hfirst : ∀ s, e'.enabledConstraint? w s = e.enabledConstraint? v s := fun s ↦ by
    rw [enabledConstraint?, constraints, enabled, enabledConstraint?]
  refine ⟨?_, h.found.imp (fun hd ↦ ?_) (And.imp (fun hoff s ↦ ?_) fun hd ↦ ?_)⟩
  · rw [constrainingSolvers_congr handles hfirst]
    exact h.single
  · rw [hd, searchDefining_of_candidates handles fun b hb ↦
      definingCandidate?_congr (hfirst b.1) (by rw [constraints]) (weight b hb)]
  · rw [hfirst, hoff]
  · have hnone : ∀ s, e'.enabledConstraint? w.unconstrained s = e.enabledConstraint? v.unconstrained s :=
      fun _ ↦ rfl
    have hsearch : e'.searchDefining w.unconstrained = e.searchDefining v.unconstrained :=
      searchDefining_of_candidates handles fun b hb ↦
        definingCandidate?_congr (hnone b.1) rfl (weight b hb)
    rw [hd, hsearch]

/-! ### Changes that leave alone what counts -/

/-- The generation, which constraints are on and the weights of solvers stay, and so does what searches
use of a variable that remembers anything. -/
structure Undisturbed (e e' : Engine) : Prop extends Advances e e' where
  same : e'.guards.generation = e.guards.generation
  enabled : e'.enabledFor = e.enabledFor
  weight : ∀ s, (e.solvers.get? s).isSome = true → e'.weight? s = e.weight? s
  vars : ∀ {x w m}, e'.vars.get? x = some w → w.definingMemo = some m →
    ∃ v, e.vars.get? x = some v ∧ v.definingMemo = some m ∧ w.handles = v.handles ∧
      w.constraints = v.constraints

theorem mem_bindings_of_handles {b : SolverId × ExtVar} (hb : b ∈ v.handles) :
    (b.1, some b.2) ∈ v.bindings.entries := by
  obtain ⟨⟨s, k⟩, hmem, heq⟩ := List.mem_filterMap.1 hb
  obtain ⟨k', rfl, rfl⟩ := Option.map_eq_some_iff.1 heq
  exact hmem

theorem Undisturbed.coheres (h : Undisturbed e e') : Coheres e e' := by
  refine fun hc ↦ ⟨h.timely hc.toTimely, fun {x w d} hw hmemo ↦ ?_⟩
  rw [h.same] at hmemo
  obtain ⟨v, hv, hmemo', hhandles, hconstraints⟩ := h.vars hw hmemo
  exact (hc.credible hv hmemo').congr hhandles hconstraints h.enabled fun b hb ↦
    h.weight b.1 (hc.housed hv (mem_bindings_of_handles hb))

theorem Undisturbed.freshens (h : Undisturbed e e') : Freshens e e' :=
  h.toAdvances.freshens fun hw hmemo ↦
    have ⟨v, hv, hmemo', _⟩ := h.vars hw hmemo
    ⟨v, hv, hmemo'⟩

/-- Objects, what else constraints are, and the other guards are no matter. -/
theorem undisturbed_aside (vars : e'.vars = e.vars) (solvers : e'.solvers = e.solvers)
    (enabled : e'.enabledFor = e.enabledFor) (same : e'.guards.generation = e.guards.generation) :
    Undisturbed e e' :=
  ⟨advances_aside vars solvers (Nat.le_of_eq same.symm), same, enabled,
    fun s _ ↦ by rw [weight?, solvers, weight?], fun hw hmemo ↦ ⟨_, vars ▸ hw, hmemo, rfl, rfl⟩⟩

theorem coheres_aside (vars : e'.vars = e.vars) (constraints : e'.constraints = e.constraints)
    (solvers : e'.solvers = e.solvers) (same : e'.guards.generation = e.guards.generation) :
    Coheres e e' :=
  (undisturbed_aside vars solvers (enabledFor_congr constraints) same).coheres

theorem undisturbed_solver {f : Solver → Solver}
    (weight : ∀ solver, e.solvers.get? s = some solver → (f solver).weight = solver.weight) :
    Undisturbed e { e with solvers := e.solvers.modify s f } :=
  ⟨advances_solver, rfl, rfl, fun t _ ↦ Arena.map_get?_modify weight t,
    fun hw hmemo ↦ ⟨_, hw, hmemo, rfl, rfl⟩⟩

theorem undisturbed_register (solver : Solver) :
    Undisturbed e { e with solvers := e.solvers.insert solver } := by
  refine ⟨Ordinary.register solver, rfl, rfl, fun t ht ↦ ?_,
    fun hw hmemo ↦ ⟨_, hw, hmemo, rfl, rfl⟩⟩
  have hne : t ≠ e.solvers.next := by
    rintro rfl
    rw [Arena.get?_next] at ht
    cases ht
  rw [weight?, Arena.get?_insert, if_neg hne, weight?]

/-- A constraint changes, but neither its solver nor whether it is on. -/
theorem undisturbed_constraint {id : ConstraintId} {f : Constraint → Constraint}
    (same : ∀ c, (f c).solver = c.solver ∧ (f c).enabled = c.enabled) :
    Undisturbed e { e with constraints := e.constraints.modify id f } :=
  undisturbed_aside rfl rfl (enabledFor_modify same) rfl

/-- A new constraint that is off. -/
theorem undisturbed_introduce {c : Constraint} (off : c.enabled = false) :
    Undisturbed e { e with constraints := e.constraints.insert c } := by
  refine undisturbed_aside rfl rfl ?_ rfl
  funext s id
  unfold enabledFor
  rw [Arena.get?_insert]
  split
  · next heq => rw [heq, Arena.get?_next, Option.any_some, Option.any_none, off, Bool.false_and]
  · rfl

/-- A variable changes, but in nothing that searches use, and what it remembers stays. -/
theorem undisturbed_variable {f : Variable → Variable}
    (same : ∀ v, (f v).definingMemo = v.definingMemo ∧ (f v).bindings = v.bindings ∧
      (f v).constraints = v.constraints) :
    Undisturbed e { e with vars := e.vars.modify x f } := by
  refine ⟨?_, rfl, rfl, fun _ _ ↦ rfl, fun hw hmemo ↦ ?_⟩
  · refine advances_of_vars (Nat.le_refl _) (fun _ hs ↦ hs) (fun hw hmemo ↦ ?_) fun hw hb ↦ ?_ <;>
      obtain ⟨v, hv, ⟨rfl, rfl⟩ | ⟨-, rfl⟩⟩ := exists_of_modify hw
    · exact .inr ⟨v, hv, (same v).1 ▸ hmemo⟩
    · exact .inr ⟨_, hv, hmemo⟩
    · exact .inr ⟨v, hv, (same v).2.1 ▸ hb⟩
    · exact .inr ⟨_, hv, hb⟩
  · obtain ⟨v, hv, ⟨rfl, rfl⟩ | ⟨-, rfl⟩⟩ := exists_of_modify hw
    · refine ⟨v, hv, (same v).1 ▸ hmemo, ?_, (same v).2.2⟩
      rw [Variable.handles, (same v).2.1, Variable.handles]
    · exact ⟨_, hv, hmemo, rfl, rfl⟩

end Engine

/-! ### Looking for the defining binding -/

namespace Step

/-- What is remembered after looking for a defining binding was remembered before, or was found, while
no constraint is current. -/
theorem memo_of_defining {y : VarId} {g : Nat} (hw : (defining x e).2.vars.get? y = some w)
    (hmemo : w.definingMemo = some (g, d)) :
    ∃ v, e.vars.get? y = some v ∧ w.handles = v.handles ∧ w.constraints = v.constraints ∧
      (v.definingMemo = some (g, d) ∨
        e.guards.current = none ∧ e.constrainingSolvers v ≤ 1 ∧ d = e.searchDefining v) := by
  cases hx : e.vars.get? x with
  | none =>
    rw [defining_of_none hx] at hw
    exact ⟨w, hw, rfl, rfl, .inl hmemo⟩
  | some u =>
    rw [defining_of_some hx] at hw
    split at hw
    · exact ⟨w, hw, rfl, rfl, .inl hmemo⟩
    · split at hw
      · exact ⟨w, hw, rfl, rfl, .inl hmemo⟩
      · obtain ⟨v, hv, ⟨rfl, rfl⟩ | ⟨-, rfl⟩⟩ := exists_of_modify hw
        · obtain rfl : v = u := Option.some.inj (hv.symm.trans hx)
          dsimp only at hmemo
          split at hmemo
          · next hcount =>
            rw [Bool.and_eq_true, Option.isNone_iff_eq_none, Bool.not_eq_true', decide_eq_false_iff_not,
              Nat.not_lt] at hcount
            cases hmemo
            exact ⟨v, hv, rfl, rfl, .inr ⟨hcount.1, hcount.2, rfl⟩⟩
          · cases hmemo
        · exact ⟨w, hv, rfl, rfl, .inl hmemo⟩

theorem coheres_defining (x : VarId) : Within Coheres e (defining x) := by
  intro hc
  have hrecalls : Recalls e (defining x e).2 := recalls_defining x
  have hadvances : Advances e (defining x e).2 := Reads.defining x
  refine ⟨hadvances.timely hc.toTimely, fun {y w d} hw hmemo ↦ ?_⟩
  obtain ⟨v, hv, hhandles, hconstraints, hfound⟩ := memo_of_defining hw hmemo
  have hcredible : e.Credible v d := by
    obtain hbefore | ⟨-, hsingle, hd⟩ := hfound
    · rw [hrecalls.guards] at hbefore
      exact hc.credible hv hbefore
    · exact ⟨hsingle, .inl hd⟩
  exact hcredible.congr hhandles hconstraints (enabledFor_congr hrecalls.constraints) fun b _ ↦ by
    rw [hrecalls.weight?_eq]

/-- While a constraint is current, nothing is remembered newly. -/
theorem freshens_defining (hcurrent : e.guards.current.isSome = true) (x : VarId) :
    Within Freshens e (defining x) := by
  have hadvances : Advances e (defining x e).2 := Reads.defining x
  refine hadvances.freshens fun {y w m} hw hmemo ↦ ?_
  obtain ⟨v, hv, -, -, hbefore | ⟨hnone, -⟩⟩ := memo_of_defining (d := m.2) hw hmemo
  · exact ⟨v, hv, hbefore⟩
  · rw [hnone] at hcurrent
    cases hcurrent

end Step

instance : Reads Coheres where
  defining := Step.coheres_defining

namespace Engine

/-- **The defining binding** that is answered with, in a coherent engine in which no constraint is
current. -/
theorem Coherent.defining (h : e.Coherent) (hcurrent : e.guards.current = none)
    (hv : e.vars.get? x = some v) (hrecent : e.Recent v) :
    e.Found v (Step.defining x e).1 ∧
      ∃ w, (Step.defining x e).2.vars.get? x = some w ∧
        w.multiSolver = decide (1 < e.constrainingSolvers v) := by
  have hnone : e.currentDefining? v = none := by rw [currentDefining?, hcurrent]; rfl
  rw [Step.defining_of_some hv, hnone]
  dsimp only
  cases hremembered : e.rememberedDefining? v with
  | some d =>
    obtain ⟨hmulti, g, hmemo, hlooks⟩ := memo_of_remembered hremembered
    obtain rfl := Guards.eq_of_looksCurrent hlooks (h.past hv hmemo) (hrecent g d hmemo)
    have hcredible := h.credible hv hmemo
    refine ⟨hcredible.found, v, hv, ?_⟩
    rw [hmulti, decide_eq_false (Nat.not_lt.2 hcredible.single)]
  | none =>
    refine ⟨.inl rfl, _, get?_modify_of_get? hv, ?_⟩
    rw [if_pos rfl]

end Engine

end LiveConstraints

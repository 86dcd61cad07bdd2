import LiveConstraints.Proofs.Ordinary
/-!
# Generations

What a variable remembers of its defining binding counts in the generation that it was found in. Nothing
is remembered from the future, and every binding is of a solver that is registered
(`Engine.Timely`); every ordinary operation keeps it so (`Engine.Advances`). When the generation ticks,
nothing that is remembered counts any more (`Engine.Fresh`).

A few changes leave what counts alone: the generation, which constraints are on, the weights of the
solvers, and what searches use of a variable that remembers anything (`Engine.Undisturbed`).
-/

namespace LiveConstraints

open Engine

variable {e e' : Engine} {s : SolverId}

namespace Engine

/-! ### Timely engines -/

/-- Nothing is remembered from the future, and every binding is of a registered solver. -/
structure Timely (e : Engine) : Prop where
  past : ∀ {x v g d}, e.vars.get? x = some v → v.definingMemo = some (g, d) →
    g ≤ e.guards.generation
  housed : ∀ {x v b}, e.vars.get? x = some v → b ∈ v.bindings.entries →
    (e.solvers.get? b.1).isSome = true

/-- The generation does not go back, and timely engines stay timely. -/
structure Advances (e e' : Engine) : Prop where
  generation : e.guards.generation ≤ e'.guards.generation
  timely : e.Timely → e'.Timely

instance : IsPreorder Engine Advances where
  refl _ := ⟨Nat.le_refl _, id⟩
  trans _ _ _ h h' := ⟨Nat.le_trans h.generation h'.generation, fun ho ↦ h'.timely (h.timely ho)⟩

/-- Solvers stay, and variables remember and are bound to nothing new but what may be. -/
theorem advances_of_vars (generation : e.guards.generation ≤ e'.guards.generation)
    (solvers : ∀ s, (e.solvers.get? s).isSome = true → (e'.solvers.get? s).isSome = true)
    (memo : ∀ {x w g d}, e'.vars.get? x = some w → w.definingMemo = some (g, d) →
      g = e.guards.generation ∨ ∃ v, e.vars.get? x = some v ∧ v.definingMemo = some (g, d))
    (bindings : ∀ {x w b}, e'.vars.get? x = some w → b ∈ w.bindings.entries →
      (e.solvers.get? b.1).isSome = true ∨ ∃ v, e.vars.get? x = some v ∧ b ∈ v.bindings.entries) :
    Advances e e' := by
  refine ⟨generation, fun ho ↦ ⟨fun hw hmemo ↦ ?_, fun hw hb ↦ ?_⟩⟩
  · obtain rfl | ⟨v, hv, hmemo'⟩ := memo hw hmemo
    · exact generation
    · exact Nat.le_trans (ho.past hv hmemo') generation
  · obtain hsome | ⟨v, hv, hb'⟩ := bindings hw hb
    · exact solvers _ hsome
    · exact solvers _ (ho.housed hv hb')

/-- Every variable is one that was there before. -/
theorem advances_of_subset (generation : e.guards.generation ≤ e'.guards.generation)
    (solvers : ∀ s, (e.solvers.get? s).isSome = true → (e'.solvers.get? s).isSome = true)
    (vars : ∀ {x w}, e'.vars.get? x = some w → e.vars.get? x = some w) : Advances e e' :=
  advances_of_vars generation solvers (fun hw hmemo ↦ .inr ⟨_, vars hw, hmemo⟩)
    fun hw hb ↦ .inr ⟨_, vars hw, hb⟩

theorem advances_aside (vars : e'.vars = e.vars) (solvers : e'.solvers = e.solvers)
    (generation : e.guards.generation ≤ e'.guards.generation) : Advances e e' :=
  advances_of_subset generation (fun _ h ↦ solvers ▸ h) fun hw ↦ vars ▸ hw

theorem advances_solver {f : Solver → Solver} :
    Advances e { e with solvers := e.solvers.modify s f } :=
  advances_of_subset (Nat.le_refl _) (fun _ ↦ isSome_get?_modify) id

instance : Managing Advances where
  aside _ vars _ solvers _ generation _ _ _ := advances_aside vars solvers generation
  finds h := by
    refine advances_of_vars (Nat.le_of_eq (by rw [h.guards])) (fun _ hs ↦ h.solvers ▸ hs) h.recent
      fun hw hb ↦ ?_
    obtain ⟨v, hv, heq⟩ := h.exists_before hw
    have hbindings : _ = v.bindings := congrArg (·.bindings) heq
    exact .inr ⟨v, hv, hbindings ▸ hb⟩
  current h := ⟨h.generation, fun ho ↦
    have hafter := h.timely ⟨ho.past, ho.housed⟩
    ⟨hafter.past, hafter.housed⟩⟩
  retouch x f retouches := by
    refine advances_of_vars (Nat.le_refl _) (fun _ ↦ id) (fun hw hmemo ↦ ?_) fun hw hb ↦ ?_
    · obtain ⟨v, hv, ⟨rfl, rfl⟩ | ⟨-, rfl⟩⟩ := exists_of_modify hw
      · exact .inr ⟨v, hv, (retouches v).memo ▸ hmemo⟩
      · exact .inr ⟨_, hv, hmemo⟩
    · obtain ⟨v, hv, ⟨rfl, rfl⟩ | ⟨-, rfl⟩⟩ := exists_of_modify hw
      · exact ((retouches v).bindings _ hb).symm.imp Grants.isSome fun hmem ↦ ⟨v, hv, hmem⟩
      · exact .inr ⟨_, hv, hb⟩
  allocate {e v} blank := by
    refine advances_of_vars (Nat.le_refl _) (fun _ ↦ id) (fun hw hmemo ↦ ?_) fun hw hb ↦ ?_ <;>
      obtain ⟨-, rfl⟩ | ⟨-, hw⟩ := Arena.of_get?_insert hw
    · rw [blank.memo] at hmemo
      cases hmemo
    · exact .inr ⟨_, hw, hmemo⟩
    · rw [blank.bindings] at hb
      cases hb
    · exact .inr ⟨_, hw, hb⟩
  release _ := advances_of_subset (Nat.le_refl _) (fun _ ↦ id) fun hw ↦ (Arena.of_get?_remove hw).2
  adjust _ _ _ := advances_aside rfl rfl (Nat.le_refl _)
  introduce _ := advances_aside rfl rfl (Nat.le_refl _)
  retire _ := advances_aside rfl rfl (Nat.le_refl _)
  confine _ _ _ := advances_solver
  register {e} solver := by
    refine advances_of_subset (Nat.le_refl _) (fun t ht ↦ ?_) id
    dsimp only
    rw [Arena.get?_insert]
    split
    · rfl
    · exact ht

/-! ### Ticks -/

/-- Nothing that is remembered counts. -/
structure Fresh (e : Engine) : Prop extends Timely e where
  stale : ∀ {x v d}, e.vars.get? x = some v → v.definingMemo ≠ some (e.guards.generation, d)

/-- Fresh engines stay fresh. -/
def Freshens (e e' : Engine) : Prop := e.Fresh → e'.Fresh

instance : IsPreorder Engine Freshens where
  refl _ := id
  trans _ _ _ h h' := h' ∘ h

/-- An timely engine becomes fresh. -/
def Ticks (e e' : Engine) : Prop := e.Timely → e'.Fresh

theorem Ticks.freshens (h : Ticks e e') : Freshens e e' := fun hf ↦ h hf.toTimely

/-- What is remembered was remembered before. -/
theorem Advances.freshens (h : Advances e e')
    (memo : ∀ {x w m}, e'.vars.get? x = some w → w.definingMemo = some m →
      ∃ v, e.vars.get? x = some v ∧ v.definingMemo = some m) : Freshens e e' := by
  refine fun hf ↦ ⟨h.timely hf.toTimely, fun hw hmemo ↦ ?_⟩
  obtain ⟨v, hv, hmemo'⟩ := memo hw hmemo
  have heq : e'.guards.generation = e.guards.generation :=
    Nat.le_antisymm (hf.past hv hmemo') h.generation
  exact hf.stale hv (heq ▸ hmemo')

/-- Whatever is no variable is no matter, as long as the solvers stay. -/
theorem freshens_of_vars (h : Advances e e') (vars : e'.vars = e.vars) : Freshens e e' :=
  h.freshens fun hw hmemo ↦ ⟨_, vars ▸ hw, hmemo⟩

end Engine

namespace Step

theorem ticks_tick : Within Ticks e tick := by
  intro ho
  have hadvances : Advances e (tick e).2 := ordinary_tick
  refine ⟨hadvances.timely ho, fun hv hmemo ↦ ?_⟩
  exact Nat.lt_irrefl _ (ho.past hv hmemo)

end Step

end LiveConstraints

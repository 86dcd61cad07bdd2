import LiveConstraints.Engine.Release
import LiveConstraints.Proofs.Evolution
/-!
# Loops over the clauses of a constraint

Switching a constraint switches its clauses one after another. What a solver's calls come to when
they are made for a list of clauses, and what a step comes to that makes them.
-/

namespace LiveConstraints

namespace Solver

variable {s s' s'' : Solver} {p : Primitive} {ps qs : List Primitive} {on on' : Bool}

theorem TogglesAll.nil (s : Solver) (on : Bool) : TogglesAll s s [] on :=
  ⟨rfl, fun q ↦ by rw [if_neg (by simp)], rfl, id⟩

theorem Toggles.cons (h : Toggles s s' p on) (h' : TogglesAll s' s'' ps on) :
    TogglesAll s s'' (p :: ps) on where
  held? := h'.held?.trans h.held?
  clause? q := by
    rw [h'.clause?, h.clause?]
    by_cases hq : q = p
    · subst hq
      rw [if_pos rfl, if_pos List.mem_cons_self, Option.map_map]
      split <;> rfl
    · rw [if_neg hq]
      simp only [List.mem_cons, hq, false_or]
  issued := h'.issued.trans h.issued
  reference := h'.reference ∘ h.reference

/-- Clauses that were switched are switched again, perhaps with others. -/
theorem TogglesAll.overwrite (h : TogglesAll s s' qs on) (hsub : ∀ q ∈ qs, q ∈ ps)
    (h' : TogglesAll s' s'' ps on') : TogglesAll s s'' ps on' where
  held? := h'.held?.trans h.held?
  clause? q := by
    rw [h'.clause?, h.clause?]
    by_cases hq : q ∈ ps
    · rw [if_pos hq, if_pos hq]
      split
      · rw [Option.map_map]
        rfl
      · rfl
    · rw [if_neg hq, if_neg hq, if_neg fun hmem ↦ hq (hsub q hmem)]
  issued := h'.issued.trans h.issued
  reference := h'.reference ∘ h.reference

theorem TogglesAll.alike (h : TogglesAll s s' ps on) (h' : Alike s' s'') :
    TogglesAll s s'' ps on where
  held? := h'.held?.trans h.held?
  clause? q := by rw [h'.clause?, h.clause?]
  issued := h'.issued.trans h.issued
  reference := h'.reference ∘ h.reference

theorem TogglesAll.trusted (h : TogglesAll s s' ps on) (hs : s.Trusted) : s'.Trusted where
  reference := h.reference hs.reference
  wellFormed p d b hclause := by
    rw [h.clause?] at hclause
    split at hclause
    · obtain ⟨⟨d', b'⟩, hold, heq⟩ := Option.map_eq_some_iff.1 hclause
      cases heq
      exact hs.wellFormed p d' b' hold
    · exact hs.wellFormed p d b hclause

/-- Switching off a list of clauses. -/
def disableAll (s : Solver) (ps : List Primitive) : Solver :=
  ps.foldl (fun s p ↦ (s.disable p).2) s

theorem togglesAll_disableAll (hs : s.IsReference) (ps : List Primitive) :
    TogglesAll s (s.disableAll ps) ps false := by
  induction ps generalizing s with
  | nil => exact .nil s false
  | cons p ps ih =>
    have h := (setEnabled_spec hs p none).1
    exact Toggles.cons h (ih (h.reference hs))

end Solver

open Engine

variable {e : Engine} {s : SolverId}

/-- Changing a solver once for each clause of a list. -/
theorem Step.run_modifyAll (g : Primitive → Solver → Solver) (ps : List Primitive) (e : Engine) :
    (forIn ps PUnit.unit fun p _ ↦ do
      modifySolver s (g p)
      pure (.yield PUnit.unit) : Step PUnit) e =
    (⟨⟩, { e with solvers := e.solvers.modify s fun solver ↦ ps.foldl (fun t p ↦ g p t) solver }) := by
  induction ps generalizing e with
  | nil =>
    show (PUnit.unit, e) = _
    simp only [List.foldl_nil, Arena.modify_id]
  | cons p ps ih =>
    rw [List.forIn_cons]
    refine (ih _).trans ?_
    simp only [Arena.modify_modify, List.foldl_cons]

/-- The outcome of switching on the clauses of a constraint one after another: all of them are on, or
some of them are on and the rest was not reached. -/
structure Call.EnablesAll (s : SolverId) (ps : List Primitive) (e : Engine)
    (outcome : Except Halt PUnit × Engine) (f : Solver → Solver) : Prop where
  solvers : outcome.2 = { e with solvers := e.solvers.modify s f }
  some : ∀ solver, e.solvers.get? s = some solver → ∃ qs, (∀ q ∈ qs, q ∈ ps) ∧
    solver.TogglesAll (f solver) qs true
  all : outcome.1 = .ok ⟨⟩ → ∀ solver, e.solvers.get? s = Option.some solver →
    solver.TogglesAll (f solver) ps true
  returns : outcome.1 ≠ .error .tooDeep

theorem Call.enablesAll (hs : ∀ solver, e.solvers.get? s = some solver → solver.IsReference)
    (ps : List Primitive) (priority : Priority) :
    ∃ f, EnablesAll s ps e ((forIn ps PUnit.unit fun p _ ↦ do
      askSolver s fun solver ↦ solver.enable p priority
      pure (.yield PUnit.unit) : Call PUnit) e) f := by
  induction ps generalizing e with
  | nil =>
    refine ⟨fun solver ↦ solver, ?_, fun solver _ ↦ ⟨[], by simp, .nil _ _⟩,
      fun _ solver _ ↦ .nil _ _, nofun⟩
    rw [Arena.modify_id]
    rfl
  | cons p ps ih =>
    rw [List.forIn_cons]
    have hrun := askSolver_eq s (fun solver ↦ solver.enable p priority) e
    cases hsolver : e.solvers.get? s with
    | none =>
      rw [hsolver] at hrun
      rw [bind_of_error (bind_of_error hrun)]
      refine ⟨fun solver ↦ solver, ?_, fun _ h ↦ (nomatch hsolver.symm.trans h), nofun, nofun⟩
      rw [Arena.modify_id]
    | some solver =>
      rw [hsolver] at hrun
      dsimp only [Solver.enable] at hrun
      obtain ⟨htoggles, hresult⟩ := Solver.setEnabled_spec (hs solver hsolver) p (some priority)
      have hsame : ∀ solver', e.solvers.get? s = Option.some solver' → solver' = solver :=
        fun _ h ↦ Option.some.inj (h.symm.trans hsolver)
      rcases hresult with ⟨hok, -⟩ | ⟨err, herr, -⟩
      · rw [hok] at hrun
        have hfirst : (do
            askSolver s fun solver ↦ solver.enable p priority
            pure (.yield PUnit.unit) : Call (ForInStep PUnit)) e = (.ok (.yield PUnit.unit), _) :=
          bind_of_ok hrun
        rw [bind_of_ok hfirst]
        have hget : (e.solvers.modify s fun _ ↦ (solver.setEnabled p (some priority)).2).get? s
            = some (solver.setEnabled p (some priority)).2 := by
          rw [Arena.get?_modify, if_pos rfl, hsolver, Option.map_some]
        obtain ⟨f, hf⟩ := ih (e := { e with
          solvers := e.solvers.modify s fun _ ↦ (solver.setEnabled p (some priority)).2 })
          fun solver' hsolver' ↦ by
            obtain rfl := Option.some.inj (hget.symm.trans hsolver')
            exact htoggles.reference (hs solver hsolver)
        refine ⟨fun _ ↦ f (solver.setEnabled p (some priority)).2, ?_, ?_, ?_, hf.returns⟩
        · rw [hf.solvers, Arena.modify_modify]
        · intro solver' hsolver'
          obtain rfl := hsame solver' hsolver'
          obtain ⟨qs, hsub, hqs⟩ := hf.some _ hget
          refine ⟨p :: qs, fun q hq ↦ ?_, htoggles.cons hqs⟩
          rcases List.mem_cons.1 hq with rfl | hq
          · exact List.mem_cons_self
          · exact List.mem_cons_of_mem _ (hsub q hq)
        · intro hok solver' hsolver'
          obtain rfl := hsame solver' hsolver'
          exact htoggles.cons (hf.all hok _ hget)
      · rw [herr] at hrun
        have hfirst : (do
            askSolver s fun solver ↦ solver.enable p priority
            pure (.yield PUnit.unit) : Call (ForInStep PUnit)) e = (.error _, _) :=
          bind_of_error hrun
        rw [bind_of_error hfirst]
        refine ⟨fun _ ↦ (solver.setEnabled p (some priority)).2, rfl, fun solver' hsolver' ↦ ?_,
          nofun, nofun⟩
        obtain rfl := hsame solver' hsolver'
        exact ⟨[p], fun q hq ↦ List.mem_singleton.1 hq ▸ List.mem_cons_self, htoggles.cons (.nil _ _)⟩

/-- Of the constraints, only one changes, and none goes. -/
structure Engine.Touches (id : ConstraintId) (e e' : Engine) : Prop where
  modifies : Modifies e e'
  others : ∀ id', id' ≠ id → e'.constraints.get? id' = e.constraints.get? id'
  live : ∀ id', e.Live id' → e'.Live id'

instance {id : ConstraintId} : IsPreorder Engine (Touches id) where
  refl e := ⟨.refl e, fun _ _ ↦ rfl, fun _ h ↦ h⟩
  trans _ _ _ h h' := ⟨h.modifies.trans h'.modifies,
    fun id' hne ↦ (h'.others id' hne).trans (h.others id' hne),
    fun id' hlive ↦ h'.live id' (h.live id' hlive)⟩

/-- No constraint changes. -/
theorem Engine.Modifies.touches {id : ConstraintId} {e' : Engine} (h : Modifies e e')
    (constraints : e'.constraints = e.constraints) : Touches id e e' :=
  ⟨h, fun _ _ ↦ by rw [constraints], fun _ hlive ↦ by rwa [Live, constraints]⟩

/-- What switching a constraint off changes. -/
structure Engine.Disables (id : ConstraintId) (e e' : Engine) : Prop where
  modifies : Modifies e e'
  vars : e'.vars = e.vars
  objects : e'.objects = e.objects
  constraints : ∀ id', e'.constraints.get? id' = if id' = id then
    (e.constraints.get? id').map fun c ↦ { c with enabled := false } else e.constraints.get? id'

theorem Engine.Disables.touches {id : ConstraintId} {e' : Engine} (h : Disables id e e') :
    Touches id e e' := by
  refine ⟨h.modifies, fun id' hne ↦ by rw [h.constraints, if_neg hne], ?_⟩
  rintro id' ⟨c, hc⟩
  rw [Live, h.constraints, hc]
  split
  · exact ⟨_, rfl⟩
  · exact ⟨c, rfl⟩

/-- Switching a constraint off. -/
theorem Step.disable_spec (hs : e.Sound) (id : ConstraintId) :
    Within (Disables id) e (disable id) := by
  unfold disable
  refine .get_bind ?_
  split
  · next hnone =>
    refine ⟨.refl e, rfl, rfl, fun id' ↦ ?_⟩
    show e.constraints.get? id' = if id' = id then _ else e.constraints.get? id'
    split
    · next h =>
      rw [h, hnone]
      rfl
    · rfl
  · next c hc =>
    split
    · rw [Within, bind_run, run_modifyAll]
      have hmove : Move e { e with
          constraints := e.constraints.modify id fun c ↦ { c with enabled := false }
          solvers := e.solvers.modify c.solver fun solver ↦
            c.primitives.foldl (fun s p ↦ (s.disable p).2) solver } :=
        .deactivate id c _ hc fun solver hsolver ↦
          Solver.togglesAll_disableAll (hs.trusted _ solver hsolver).reference c.primitives
      refine ⟨(modifies_of_move hmove rfl rfl rfl).trans ?_, rfl, rfl, fun id' ↦ ?_⟩
      · exact modifies_aside rfl rfl rfl rfl rfl rfl rfl rfl
      · exact Arena.get?_modify ..
    · next hoff =>
      rw [Bool.not_eq_true] at hoff
      refine ⟨.refl e, rfl, rfl, fun id' ↦ ?_⟩
      show e.constraints.get? id' = if id' = id then _ else e.constraints.get? id'
      split
      · next h => rw [h, hc, Option.map_some, ← hoff]
      · rfl

end LiveConstraints

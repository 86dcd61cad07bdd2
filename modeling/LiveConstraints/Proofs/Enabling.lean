import LiveConstraints.Engine.Enabling
import LiveConstraints.Proofs.Evaluation
import LiveConstraints.Proofs.Propagation
/-!
# Switching constraints on keeps the invariant

Between the first clause that is switched on and the end of the solving the invariant does not hold.
`Call.activates` spans that gap: an activation that succeeds is one move, and one that fails is made
good by taking it back. The temporary primitives by which newly reached variables keep their values
demand nothing, so they may be switched at any time (`Engine.Spare`).
-/

namespace LiveConstraints

open Engine

variable {e e' : Engine} {r : Reentry} {id : ConstraintId} {c : Constraint} {s : SolverId}

namespace Call

/-! ### Activating -/

/-- Taking back a failed activation. -/
theorem deactivate_run (id : ConstraintId) (c : Constraint) (e : Engine) :
    (deactivate id c e).2 = { e with
      constraints := e.constraints.modify id fun c ↦ { c with enabled := false }
      solvers := e.solvers.modify c.solver fun solver ↦ solver.disableAll c.primitives
      guards := { e.guards with generation := e.guards.generation + 1 } } := by
  unfold deactivate
  rw [Step.bind_run, Step.run_modifyAll]
  rfl

/-- A move that changes one constraint. -/
theorem touches_of_move (h : Move e e') {f : Constraint → Constraint}
    (constraints : e'.constraints = e.constraints.modify id f) (guards : e'.guards = e.guards)
    (deferred : e'.deferred = e.deferred) (pending : e'.pendingHooks = e.pendingHooks) :
    Touches id e e' := by
  refine ⟨modifies_of_move h guards deferred pending, fun id' hne ↦ ?_, ?_⟩
  · rw [constraints, Arena.get?_modify, if_neg hne]
  · rintro id' ⟨c, hc⟩
    rw [Live, constraints]
    exact ⟨_, get?_modify_constraint hc⟩

/-- Clauses that are being switched on are switched off again. -/
theorem touches_deactivated (hs : e.Sound) (hc : e.constraints.get? id = some c)
    {f : Solver → Solver} {g : Constraint → Constraint}
    (hf : ∀ solver, e.solvers.get? c.solver = some solver → ∃ qs, (∀ q ∈ qs, q ∈ c.primitives) ∧
      solver.TogglesAll (f solver) qs true)
    (hg : ∀ c, { g c with enabled := false } = { c with enabled := false })
    (he : e' = { e with
      constraints := e.constraints.modify id g
      solvers := e.solvers.modify c.solver f }) :
    Touches id e (deactivate id c e').2 := by
  have hmove : Move e { e with
      constraints := e.constraints.modify id fun c ↦ { c with enabled := false }
      solvers := e.solvers.modify c.solver fun solver ↦ (f solver).disableAll c.primitives } := by
    refine .deactivate id c _ hc fun solver hsolver ↦ ?_
    obtain ⟨qs, hsub, hqs⟩ := hf solver hsolver
    have href := hqs.reference (hs.trusted _ solver hsolver).reference
    exact hqs.overwrite hsub (Solver.togglesAll_disableAll href c.primitives)
  refine trans_of (Touches id) (touches_of_move hmove rfl rfl rfl rfl) ?_
  rw [deactivate_run, he]
  dsimp only
  rw [Arena.modify_modify, Arena.modify_modify, funext hg]
  exact Modifies.touches (modifies_aside rfl rfl rfl rfl rfl rfl rfl rfl) rfl

/-- What an activation comes to. -/
structure Activates (id : ConstraintId) (c : Constraint) (e : Engine)
    (outcome : Except Halt Unit × Engine) : Prop where
  ok : outcome.1 = .ok () → Touches id e outcome.2
  failed : ∀ err, outcome.1 = .error (.failed err) → Touches id e (deactivate id c outcome.2).2
  returns : outcome.1 ≠ .error .tooDeep

/-- Solving with the clauses on. -/
theorem activates_solve (hs : e.Sound) (hc : e.constraints.get? id = some c)
    {f : Solver → Solver} (hf : ∀ solver, e.solvers.get? c.solver = some solver →
      solver.TogglesAll (f solver) c.primitives true)
    (he : e' = { e with
      constraints := e.constraints.modify id fun c ↦ { c with enabled := true }
      solvers := e.solvers.modify c.solver f }) :
    Activates id c e ((do if !c.isTest then askSolver c.solver Solver.solve : Call Unit) e') := by
  have hsome : ∀ solver, e.solvers.get? c.solver = some solver → ∃ qs,
      (∀ q ∈ qs, q ∈ c.primitives) ∧ solver.TogglesAll (f solver) qs true :=
    fun solver hsolver ↦ ⟨_, fun _ h ↦ h, hf solver hsolver⟩
  cases htest : c.isTest with
  | true =>
    refine ⟨fun _ ↦ ?_, nofun, nofun⟩
    rw [he]
    exact touches_of_move (.activate id c f hc fun solver hsolver ↦
      ⟨_, hf solver hsolver, .inl ⟨htest, rfl⟩⟩) rfl rfl rfl rfl
  | false =>
    show Activates id c e (askSolver c.solver Solver.solve e')
    have hget : e'.solvers.get? c.solver = (e.solvers.get? c.solver).map f := by
      rw [he]
      dsimp only
      rw [Arena.get?_modify, if_pos rfl]
    have hrun := askSolver_eq c.solver Solver.solve e'
    rw [hget] at hrun
    cases hsolver : e.solvers.get? c.solver with
    | none =>
      rw [hsolver] at hrun
      dsimp only [Option.map_none] at hrun
      rw [hrun]
      refine ⟨nofun, fun err _ ↦ ?_, nofun⟩
      exact touches_deactivated (g := fun c ↦ { c with enabled := true }) hs hc hsome
        (fun _ ↦ rfl) he
    | some solver =>
      rw [hsolver] at hrun
      dsimp only [Option.map_some] at hrun
      rw [hrun]
      have htoggles := hf solver hsolver
      have hafter : { e' with solvers := e'.solvers.modify c.solver fun _ ↦ (f solver).solve.2 }
          = { e with
            constraints := e.constraints.modify id fun c ↦ { c with enabled := true }
            solvers := e.solvers.modify c.solver fun _ ↦ (f solver).solve.2 } := by
        rw [he]
        dsimp only
        rw [Arena.modify_modify]
      have hsame : ∀ other, e.solvers.get? c.solver = some other → other = solver :=
        fun other hother ↦ Option.some.inj (hother.symm.trans hsolver)
      rcases Solver.runs_solve (htoggles.trusted (hs.trusted _ solver hsolver)) with
        ⟨⟨err, herr⟩, halike⟩ | ⟨hok, hadopts⟩
      · rw [herr]
        refine ⟨nofun, fun _ _ ↦ ?_, nofun⟩
        refine touches_deactivated (g := fun c ↦ { c with enabled := true }) hs hc
          (fun other hother ↦ ?_) (fun _ ↦ rfl) hafter
        obtain rfl := hsame other hother
        exact ⟨c.primitives, fun _ h ↦ h, htoggles.alike halike⟩
      · rw [hok]
        refine ⟨fun _ ↦ ?_, nofun, nofun⟩
        dsimp only
        rw [hafter]
        refine touches_of_move (.activate id c _ hc fun other hother ↦ ?_) rfl rfl rfl rfl
        obtain rfl := hsame other hother
        exact ⟨f other, htoggles, .inr hadopts⟩

/-- **Activating.** A success is one move; a failure is made good by taking it back. -/
theorem activates (hs : e.Sound) (hc : e.constraints.get? id = some c) :
    Activates id c e (activate id c e) := by
  obtain ⟨f, hf⟩ := enablesAll (fun solver hsolver ↦ (hs.trusted _ solver hsolver).reference)
    c.primitives c.priority
  unfold activate
  rcases hrun : (forIn c.primitives PUnit.unit fun p _ ↦ do
      askSolver c.solver fun solver ↦ solver.enable p c.priority
      pure (.yield PUnit.unit) : Call PUnit) e with ⟨(err | -) | a, e₁⟩
  · rw [bind_of_error hrun]
    rw [hrun] at hf
    refine ⟨nofun, fun _ _ ↦ ?_, nofun⟩
    exact touches_deactivated hs hc hf.some (g := fun c ↦ c) (fun _ ↦ rfl)
      (by rw [Arena.modify_id]; exact hf.solvers)
  · exact absurd (by rw [hrun]) hf.returns
  · rw [bind_of_ok hrun]
    rw [hrun] at hf
    have hsolvers : e₁ = { e with solvers := e.solvers.modify c.solver f } := hf.solvers
    have hc₁ : e₁.constraints.get? id = some c := by rw [hsolvers]; exact hc
    rw [bind_of_ok (changeConstraint_eq hc₁ _)]
    exact activates_solve hs hc (hf.all rfl) (by rw [hsolvers])

/-! ### Reconciling and enabling -/

theorem touches_reportSolve (id : ConstraintId) (owner : Option ConstraintId) (s : SolverId)
    (phase : SolvePhase) :
    Step.Within (Touches id) e (Step.reportSolve owner s phase) := by
  refine .get_bind ?_
  dsimp only
  split
  · exact Modifies.touches (Step.within_report _) rfl
  · exact .pure _

/-- While candidates are compared, only what is remembered changes. -/
theorem recalls_reconcile (xs : List VarId) : Within Recalls e (reconcile r true xs) := by
  induction xs generalizing e with
  | nil => exact .pure _
  | cons x xs ih =>
    refine .get_bind ?_
    split
    · exact ih
    · refine .lift_bind (Step.recalls_read x) fun new e₁ _ _ ↦ ?_
      exact ih.bind fun _ _ _ _ ↦ .pure _

theorem evolves_reconcile (hr : r.Lawful) (hs : e.Sound) (compare : Bool) (xs : List VarId) :
    Within Evolves e (reconcile r compare xs) := by
  induction xs generalizing e with
  | nil => exact .pure _
  | cons x xs ih =>
    refine .get_bind ?_
    split
    · exact ih hs
    · next v _ =>
      refine .lift_bind_of (Step.recalls_read x) (fun _ h ↦ h.modifies.evolves) fun new e₁ _ h₁ ↦ ?_
      have hs₁ := h₁.modifies.sound hs
      split
      · refine (modifies_updateDownstream hs₁ x new).bind_of (fun _ ↦ Modifies.evolves)
          fun _ e₂ _ h₂ ↦ ?_
        refine (evolves_propagate hr (h₂.sound hs₁) x new _ _ _).bind fun _ e₃ _ h₃ ↦ ?_
        exact (ih (h₃.sound (h₂.sound hs₁))).bind fun _ _ _ _ ↦ .pure _
      · exact (ih hs₁).bind fun _ _ _ _ ↦ .pure _

/-- An activation, taken back when it fails. -/
theorem within_activation {R : Engine → Engine → Prop} [IsPreorder Engine R] {k : Call Unit}
    (hs : e.Sound) (hc : e.constraints.get? id = some c) (hR : ∀ {e'}, Touches id e e' → R e e')
    (hk : ∀ {e'}, Touches id e e' → Within R e' k) :
    Within R e (attempt (activate id c) >>= fun result ↦ match result with
      | .error err => do
        deactivate id c
        fail err
      | .ok () => k) := by
  have hactivates := activates hs hc
  rcases hrun : activate id c e with ⟨(err | -) | a, e₁⟩
  · have hfailed := hactivates.failed err (by rw [hrun])
    rw [hrun] at hfailed
    rw [Within, bind_of_ok (attempt_failed hrun)]
    exact fun _ ↦ hR hfailed
  · exact absurd (by rw [hrun]) hactivates.returns
  · have hok := hactivates.ok (by rw [hrun])
    rw [hrun] at hok
    rw [Within, bind_of_ok (attempt_ok hrun)]
    exact fun hne ↦ trans_of R (hR hok) (hk hok hne)

/-- Switching on stays within whatever reconciling stays within. -/
theorem within_enable {R : Engine → Engine → Prop} [IsPreorder Engine R] {compare : Bool}
    (hs : e.Sound) (hR : ∀ {e e'}, Touches id e e' → R e e')
    (hreconcile : ∀ {e}, e.Sound → ∀ xs, Within R e (reconcile r compare xs)) :
    Within R e (enable r id compare) := by
  refine .constraintAt_bind fun c hc ↦ ?_
  split
  · exact .pure _
  · split
    · exact .get_bind (.fail _)
    · have htick : Touches id e (Step.tick e).2 := Modifies.touches Step.within_tick rfl
      refine .lift_bind (hR htick) fun _ e₁ hrun _ ↦ ?_
      obtain rfl : (Step.tick e).2 = e₁ := by rw [hrun]
      refine within_activation (htick.modifies.sound hs) hc hR fun {e₂} h₂ ↦ ?_
      have hs₂ := h₂.modifies.sound (htick.modifies.sound hs)
      have helapsed : Touches id e₂ (Step.elapsed e₂).2 := Modifies.touches Step.within_elapsed rfl
      refine .lift_bind (hR helapsed) fun elapsedMs e₃ hrun₃ _ ↦ ?_
      obtain rfl : (Step.elapsed e₂).2 = e₃ := by rw [hrun₃]
      have hs₃ := helapsed.modifies.sound hs₂
      refine .lift_bind_of (touches_reportSolve id _ _ _) (fun _ ↦ hR) fun _ e₄ _ h₄ ↦ ?_
      refine .constraintAt_bind fun c₄ _ ↦ ?_
      refine (hreconcile (h₄.modifies.sound hs₃) c₄.vars).bind fun changes e₅ _ _ ↦ ?_
      refine .constraintAt_bind fun _ _ _ ↦ hR (touches_of_move (.adjust id _ fun c ↦ ?_) rfl rfl rfl rfl)
      exact .bookkeeping

theorem touches_enable_compare (hs : e.Sound) : Within (Touches id) e (enable r id true) :=
  within_enable hs (fun h ↦ h) fun _ xs ↦
    (recalls_reconcile xs).mono fun _ h ↦ h.modifies.touches h.constraints

/-- **Switching on.** -/
theorem evolves_enable (hr : r.Lawful) (hs : e.Sound) (id : ConstraintId) (compare : Bool) :
    Within Evolves e (enable r id compare) :=
  within_enable hs (fun h ↦ h.modifies.evolves) fun hs xs ↦ evolves_reconcile hr hs compare xs

end Call

end LiveConstraints

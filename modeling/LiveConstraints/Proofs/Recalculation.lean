import LiveConstraints.Proofs.Enabling
import LiveConstraints.Proofs.Spare
/-!
# Rebuilding a constraint keeps the invariant

A constraint is taken apart until it is bare, evaluated afresh and switched on again. The primitives
by which newly reached variables keep their values are spare all along, whatever the propagation in
between does.
-/

namespace LiveConstraints

open Engine

variable {e e' : Engine} {r : Reentry} {id : ConstraintId} {c : Constraint} {s : SolverId}
  {p : Primitive}

/-! ### Temporary primitives -/

namespace Solver

/-- Switching a clause twice. -/
theorem Toggles.toggles {t t' t'' : Solver} {on on' : Bool} (h : Toggles t t' p on)
    (h' : Toggles t' t'' p on') : Toggles t t'' p on' where
  held? := h'.held?.trans h.held?
  clause? q := by
    rw [h'.clause?, h.clause?]
    split
    · rw [Option.map_map]
      rfl
    · rfl
  issued := h'.issued.trans h.issued
  reference := h'.reference ∘ h.reference

theorem toggles_setEnabled {t : Solver} (ht : t.IsReference) (p : Primitive)
    (priority : Option Priority) : Toggles t (t.setEnabled p priority).2 p priority.isSome :=
  (setEnabled_spec ht p priority).1

end Solver

/-- A clause that was switched is removed. -/
theorem Solver.Toggles.erases {t t' t'' : Solver} {on : Bool} (h : Toggles t t' p on)
    (h' : Erases t' t'' p) : Erases t t'' p where
  held? := h'.held?.trans h.held?
  clause? q := by
    rw [h'.clause?, h.clause?]
    split <;> rfl
  issued := h'.issued.trans h.issued
  reference := h'.reference ∘ h.reference

/-- A primitive that was just installed and demands nothing is spare. -/
theorem Engine.spare_of_installs {solver solver' : Solver} (hsolver : e.solvers.get? s = some solver)
    (hinstalls : solver.Installs solver' p .keeps)
    (solvers : e'.solvers = e.solvers.modify s fun _ ↦ solver') : e'.Spare s p := by
  have hget : e'.solvers.get? s = some solver' := by
    rw [solvers, Arena.get?_modify, if_pos rfl, hsolver, Option.map_some]
  refine ⟨?_, fun d on hclause ↦ ?_⟩
  · rw [issued_eq hget, hinstalls.issued, hinstalls.index]
    exact Nat.lt_succ_self _
  · rw [clause?_eq hget, hinstalls.clause?, if_pos rfl] at hclause
    cases hclause
    exact fun h ↦ h

/-- A spare primitive is switched. -/
theorem modifies_toggle {f : Solver → Solver} (on : Bool) (h : e.Spare s p)
    (toggles : ∀ solver, e.solvers.get? s = some solver → solver.Toggles (f solver) p on) :
    Modifies e { e with solvers := e.solvers.modify s f } :=
  modifies_of_move (.toggle s p on f toggles h.idle) rfl rfl rfl

namespace Call

/-- A solver is asked to keep a value. -/
theorem gives_keep (hs : e.Sound) (s : SolverId) (h : ExtVar) (v : Value) :
    Gives Modifies e (askSolver s fun solver ↦ solver.keep h v) fun p e' ↦ e'.Spare s p := by
  refine ⟨.of_askSolver fun solver hsolver ↦ ?_, fun p e' hrun ↦ ?_⟩
  · rcases Solver.keep_spec (hs.trusted s solver hsolver).reference h v with
      ⟨-, halike⟩ | ⟨p, -, hinstalls⟩
    · exact Step.modifies_adopt hsolver (.inl halike)
    · refine modifies_of_move (.install s _ fun other hother ↦ ⟨p, .keeps, ?_, trivial⟩) rfl rfl rfl
      obtain rfl : other = solver := Option.some.inj (hother.symm.trans hsolver)
      exact hinstalls
  · rw [askSolver_eq] at hrun
    cases hsolver : e.solvers.get? s with
    | none =>
      rw [hsolver] at hrun
      cases hrun
    | some solver =>
      rw [hsolver] at hrun
      obtain ⟨hresult, rfl⟩ := Prod.mk.inj hrun
      rcases Solver.keep_spec (hs.trusted s solver hsolver).reference h v with
        ⟨⟨err, herr⟩, -⟩ | ⟨q, hq, hinstalls⟩
      · rw [herr] at hresult
        cases hresult
      · obtain rfl : q = p := by
          rw [hq] at hresult
          cases hresult
          rfl
        exact spare_of_installs hsolver hinstalls rfl

theorem gives_transplant (hs : e.Sound) (s : SolverId) (x : VarId) :
    Gives Modifies e (transplant? s x) fun p? e' ↦ ∀ p, p? = some p → e'.Spare s p := by
  refine .get_bind ?_
  split
  · exact .pure nofun
  · next h _ =>
    have hread : Within Recalls e (liftM (Step.read x)) := .lift (Step.recalls_read x)
    refine (hread.mono fun _ ↦ Recalls.modifies).bind_gives fun v e₁ _ h₁ ↦ ?_
    have hs₁ := h₁.sound hs
    refine (gives_keep hs₁ s h v).bind fun p e₂ h₂ hp ↦ ?_
    have hs₂ := h₂.sound hs₁
    refine Within.bind_gives (.of_callSolver fun solver hsolver ↦ ?_) fun _ e₃ _ h₃ ↦ .pure ?_
    · have href := (hs₂.trusted s solver hsolver).reference
      refine modifies_toggle true hp fun other hother ↦ ?_
      obtain rfl : other = solver := Option.some.inj (hother.symm.trans hsolver)
      have hrequired := Solver.toggles_setEnabled href p (some .required)
      dsimp only [Solver.enable]
      rcases hrun : other.setEnabled p (some .required) with ⟨_ | _, after⟩
      · rw [hrun] at hrequired
        exact hrequired.toggles (Solver.toggles_setEnabled (hrequired.reference href) p _)
      · rw [hrun] at hrequired
        exact hrequired
    · rintro q ⟨⟩
      exact hp.path h₃.path

/-- Spare primitives are switched one after another. -/
theorem modifies_toggleAll {ps : List Primitive} {g : Primitive → Solver → Solver} (on : Bool)
    (hs : e.Sound) (hps : ∀ p ∈ ps, e.Spare s p)
    (hg : ∀ p (solver : Solver), solver.IsReference → solver.Toggles (g p solver) p on) :
    Within Modifies e (forIn ps PUnit.unit fun p _ ↦ do
      Step.modifySolver s (g p)
      pure (.yield PUnit.unit)) := by
  refine .forIn fun p hp _ e₁ h₁ ↦ .lift_bind ?_ fun _ _ _ _ ↦ .pure _
  refine modifies_toggle on ((hps p hp).path h₁.path) fun solver hsolver ↦ ?_
  exact hg p solver ((h₁.sound hs).trusted s solver hsolver).reference

theorem evolves_enableTransplanted (hr : r.Lawful) (hs : e.Sound) (id : ConstraintId)
    {ps : List Primitive} (hps : ∀ p ∈ ps, e.Spare s p) :
    Within Evolves e (enableTransplanted r id s ps) := by
  refine (evolves_enable hr hs id false).attempt.bind fun result e₁ _ h₁ ↦ ?_
  have hs₁ := h₁.sound hs
  cases result with
  | ok _ => exact .pure _
  | error _ =>
    refine .lift_bind_of (Step.disable_spec hs₁ id) (fun _ h ↦ h.modifies.evolves)
      fun _ e₂ _ h₂ ↦ ?_
    have hs₂ := h₂.modifies.sound hs₁
    refine (modifies_toggleAll true hs₂ (fun p hp ↦ ?_) fun p solver href ↦ ?_).bind_of
      (fun _ ↦ Modifies.evolves) fun _ e₃ _ h₃ ↦ evolves_enable hr (h₃.sound hs₂) id false
    · exact ((hps p hp).path h₁.path).path h₂.modifies.path
    · have hoff := Solver.toggles_setEnabled href p none
      exact hoff.toggles (Solver.toggles_setEnabled (hoff.reference href) p (some .strong))

/-- The temporary primitives are removed. -/
theorem modifies_removeSpares {ps : List Primitive} (hs : e.Sound) (hps : ∀ p ∈ ps, e.Spare s p) :
    Within Modifies e (forIn ps PUnit.unit fun p _ ↦ do
      Step.modifySolver s fun solver => (solver.disable p).2.removePrimitive p
      pure (.yield PUnit.unit)) := by
  refine .forIn fun p hp _ e₁ h₁ ↦ .lift_bind ?_ fun _ _ _ _ ↦ .pure _
  have hs₁ := h₁.sound hs
  have hp₁ := (hps p hp).path h₁.path
  refine modifies_of_move (.erase s p _ (fun solver hsolver ↦ ?_) (hp₁.unowned hs₁)) rfl rfl rfl
  have href := (hs₁.trusted s solver hsolver).reference
  have hoff := Solver.toggles_setEnabled href p none
  exact hoff.erases (Solver.erases_removePrimitive (hoff.reference href) p)

/-! ### Taking a constraint apart -/

/-- A constraint with nothing compiled may change its variables. -/
theorem realizable_bare {c : Constraint} (henabled : c.enabled = false)
    (hprimitives : c.primitives = []) : e.Realizable id c := by
  refine ⟨henabled, ?_, ?_, ?_, ?_⟩ <;> rw [hprimitives] <;> simp

theorem of_changeConstraint_ok {f : Constraint → Constraint}
    (h : changeConstraint id f e = (.ok ⟨⟩, e')) :
    e' = { e with constraints := e.constraints.modify id f } := by
  obtain ⟨c, e₁, hc, hmodify⟩ := of_bind_ok h
  obtain ⟨-, rfl⟩ := of_lookup_ok (constraintAt_eq id e) hc
  cases hmodify
  rfl

/-- A constraint that is off gives its clauses up. -/
theorem gives_strip {f : Constraint → Constraint}
    (hoff : ∀ c, e.constraints.get? id = some c → c.enabled = false)
    (henabled : ∀ c, (f c).enabled = c.enabled) (hoptions : ∀ c, (f c).options = c.options)
    (hprimitives : ∀ c, e.constraints.get? id = some c → (f c).primitives = []) :
    Gives Modifies e (changeConstraint id f) fun _ e' ↦ e'.Bare id ∧
      e' = { e with constraints := e.constraints.modify id f } where
  within := modifies_reshape fun c hc ↦ ⟨hoff c hc, hoptions c,
    realizable_bare ((henabled c).trans (hoff c hc)) (hprimitives c hc)⟩
  result _ e' hrun := by
    obtain rfl := of_changeConstraint_ok hrun
    refine ⟨fun c hc ↦ ?_, rfl⟩
    obtain ⟨c₀, hc₀, ⟨-, rfl⟩ | ⟨hne, -⟩⟩ := exists_constraint_of_modify hc
    · exact ⟨(henabled c₀).trans (hoff c₀ hc₀), hprimitives c₀ hc₀⟩
    · exact absurd rfl hne

/-- The clauses of a constraint that has given them up belong to nobody: they were its alone. -/
theorem unowned_of_bare (hs : e.Sound) (hc : e.constraints.get? id = some c) (hbare : e'.Bare id)
    (hothers : ∀ id', id' ≠ id → e'.constraints.get? id' = e.constraints.get? id') :
    ∀ p ∈ c.primitives, ¬ e'.Owned c.solver p := by
  rintro p hp ⟨id', c', hc', hsolver, hp'⟩
  by_cases hid : id' = id
  · subst hid
    rw [(hbare c' hc').2] at hp'
    cases hp'
  · rw [hothers id' hid] at hc'
    exact hid (hs.unique id' c' id c hc' hc hsolver p hp' hp)

/-- A bare constraint gives its variables up. -/
theorem detaches_leaveBare (xs : List VarId) (hbare : e.Bare id) :
    Within Detaches e (forIn xs PUnit.unit fun x _ ↦ do
      Step.leave x id
      pure (.yield PUnit.unit)) := by
  refine .forIn fun x _ _ e₁ h₁ ↦ .lift_bind ?_ fun _ _ _ _ ↦ .pure _
  refine ⟨modifies_of_move (.leave x id fun c hc ↦ ?_) rfl rfl rfl, rfl⟩
  rw [h₁.constraints] at hc
  exact (hbare c hc).2

/-- **Dismantling** leaves a bare constraint. -/
theorem gives_dismantle (hs : e.Sound) (hc : e.constraints.get? id = some c) :
    Gives Modifies e (dismantle id c) fun _ e' ↦ e'.Bare id := by
  have hdisable := Within.lift (Step.disable_spec hs id)
  refine (hdisable.mono fun _ h ↦ h.modifies).bind_gives fun _ e₁ hrun₁ h₁ ↦ ?_
  have hdisables : Disables id e e₁ := hdisable.of_ok hrun₁
  have hoff : ∀ c', e₁.constraints.get? id = some c' → c'.enabled = false := fun c' hc' ↦ by
    rw [hdisables.constraints, if_pos rfl, hc] at hc'
    cases hc'
    rfl
  have hstrip := gives_strip (f := fun c ↦ { c with primitives := [] }) hoff (fun _ ↦ rfl)
    (fun _ ↦ rfl) fun _ _ ↦ rfl
  refine hstrip.bind fun _ e₂ h₂ hstripped ↦ ?_
  obtain ⟨hbare₂, he₂⟩ := hstripped
  have hs₂ := h₂.sound (h₁.sound hs)
  have hothers : ∀ id', id' ≠ id → e₂.constraints.get? id' = e.constraints.get? id' :=
    fun id' hid ↦ by rw [he₂, Arena.get?_modify, if_neg hid, hdisables.constraints, if_neg hid]
  have hremove := detaches_removePrimitives hs₂ (unowned_of_bare hs hc hbare₂ hothers)
  refine (hremove.mono fun _ h ↦ h.modifies).bind_gives fun _ e₃ hrun₃ _ ↦ ?_
  have hbare₃ : e₃.Bare id := by
    rw [Bare, (hremove.of_ok hrun₃).constraints]
    exact hbare₂
  have hleave := detaches_leaveBare c.vars hbare₃
  refine (hleave.mono fun _ h ↦ h.modifies).bind_gives fun _ e₄ hrun₄ _ ↦ ?_
  have hbare₄ : e₄.Bare id := by
    rw [Bare, (hleave.of_ok hrun₄).constraints]
    exact hbare₃
  have hforget := gives_strip (f := fun c ↦ { c with vars := [] }) (fun c' hc' ↦ (hbare₄ c' hc').1)
    (fun _ ↦ rfl) (fun _ ↦ rfl) fun c' hc' ↦ (hbare₄ c' hc').2
  exact ⟨hforget.within, fun a e' hrun ↦ (hforget.result a e' hrun).1⟩

/-! ### Rebuilding -/

/-- Variables that a constraint no longer reaches are let go of. -/
theorem modifies_forsake (hs : e.Sound) (s : SolverId) (xs : List VarId) :
    Within Modifies e (forsake s xs) := by
  refine Within.bind (.forIn fun x _ _ e₁ h₁ ↦ .get_bind ?_) fun _ _ _ _ ↦ .pure _
  have hs₁ := h₁.sound hs
  have hdetach : ∀ {e₂ : Engine}, e₂.Sound → Within Modifies e₂ (do
      Step.detachUnused x
      pure (ForInStep.yield PUnit.unit) : Call (ForInStep PUnit)) := fun {e₂} hs₂ ↦
    .lift_bind ((Step.detaches_detachUnused hs₂ x).mono fun _ h ↦ h.modifies)
      fun _ _ _ _ ↦ .pure _
  split
  · next h _ =>
    refine Within.bind (.of_callSolver fun solver hsolver ↦ ?_) fun _ e₂ _ h₂ ↦
      hdetach (h₂.sound hs₁)
    exact Step.modifies_adopt hsolver
      (.inl (Solver.alike_removeStay (hs₁.trusted s solver hsolver).reference h))
  · exact hdetach hs₁

theorem gives_transplants (hs : e.Sound) (s : SolverId) (xs : List VarId) :
    Gives Modifies e (xs.filterMapM (transplant? s)) fun ps e' ↦ ∀ p ∈ ps, e'.Spare s p := by
  induction xs generalizing e with
  | nil => exact .pure (by simp)
  | cons x xs ih =>
    rw [List.filterMapM_cons]
    refine (gives_transplant hs s x).bind fun p? e₁ h₁ hp ↦ ?_
    cases p? with
    | none => exact ih (h₁.sound hs)
    | some p =>
      refine (ih (h₁.sound hs)).bind fun ps e₂ h₂ hps ↦ .pure fun q hq ↦ ?_
      rcases List.mem_cons.1 hq with rfl | hq
      · exact (hp q rfl).path h₂.path
      · exact hps q hq

/-- **Rebuilding.** -/
theorem evolves_recalculate (hr : r.Lawful) (hs : e.Sound) (id : ConstraintId) :
    Within Evolves e (recalculate r id) := by
  refine .constraintAt_bind fun c hc ↦ ?_
  split
  · exact .pure _
  · have hdismantle := gives_dismantle hs hc
    refine hdismantle.within.bind_of (fun _ ↦ Modifies.evolves) fun _ e₁ hrun h₁ ↦ ?_
    have hs₁ := h₁.sound hs
    refine (modifies_realize hs₁ (hdismantle.result _ _ hrun)).bind_of (fun _ ↦ Modifies.evolves)
      fun _ e₂ _ h₂ ↦ ?_
    have hs₂ := h₂.sound hs₁
    refine .constraintAt_bind fun c₂ _ ↦ ?_
    refine (modifies_forsake hs₂ _ _).bind_of (fun _ ↦ Modifies.evolves) fun _ e₃ _ h₃ ↦ ?_
    have hs₃ := h₃.sound hs₂
    have htransplants := gives_transplants hs₃ c.solver
      (c₂.vars.filter fun x ↦ !c.vars.contains x)
    refine htransplants.within.bind_of (fun _ ↦ Modifies.evolves) fun ps e₄ hrun₄ h₄ ↦ ?_
    have hs₄ := h₄.sound hs₃
    have hps := htransplants.result _ _ hrun₄
    refine (evolves_enableTransplanted hr hs₄ id hps).attempt.bind fun result e₅ _ h₅ ↦ ?_
    refine (modifies_removeSpares (h₅.sound hs₄) fun p hp ↦ (hps p hp).path h₅.path).bind_of
      (fun _ ↦ Modifies.evolves) fun _ _ _ _ ↦ .ofExcept _

end Call

end LiveConstraints

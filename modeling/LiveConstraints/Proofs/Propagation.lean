import LiveConstraints.Engine.Propagation
import LiveConstraints.Proofs.Reading
/-!
# Propagating keeps the invariant

Propagation leads back into the engine, so its lemmas assume that the ways back keep the invariant
(`Reentry.Lawful`). A call that is interrupted promises nothing; every other one leaves an engine
that evolved from the one it started from.
-/

namespace LiveConstraints

open Engine

variable {e e' : Engine} {r : Reentry} {id : ConstraintId} {s : SolverId} {x : VarId}

/-- The ways back into the engine keep the invariant. -/
structure Reentry.Lawful (r : Reentry) : Prop where
  /-- Writing. -/
  suggest : ∀ {e}, e.Sound → ∀ x v origin force,
    Call.Within Evolves e (r.suggest x v origin force)
  /-- Rebuilding. -/
  recalculate : ∀ {e}, e.Sound → ∀ id, Call.Within Evolves e (r.recalculate id)
  /-- Making requests. -/
  act : ∀ {e}, e.Sound → ∀ {requests}, Admissible requests →
    Call.Within Evolves e (r.act requests)
  /-- Whatever the requests come to, making them does not fail. -/
  act_ne_failed : ∀ e requests err, (r.act requests e).1 ≠ .error (.failed err)

theorem Reentry.Lawful.unfailing {r : Reentry} (hr : r.Lawful) (requests : List Request) :
    Call.Unfailing (r.act requests) := fun e err ↦ hr.act_ne_failed e requests err

namespace Solver

/-- Suggesting a value to a handle whose read-only flag is lifted for the call. -/
theorem suggest_lifted {s : Solver} (hs : s.Trusted) (h : ExtVar) (v : Value) (readonly : Bool) :
    Alike s (((s.setReadonly h false).suggest h v).2.setReadonly h readonly) ∨
      Adopts s (((s.setReadonly h false).suggest h v).2.setReadonly h readonly) := by
  have hlift := alike_setReadonly hs.reference h false
  have hs₁ := hlift.trusted hs
  have hback : ∀ t, t.IsReference → Alike t (t.setReadonly h readonly) :=
    fun t ht ↦ alike_setReadonly ht h readonly
  rcases runs_suggest hs₁ h v with (⟨-, halike⟩ | ⟨-, hadopts⟩) | ⟨-, halike⟩
  · have h' := hlift.trans halike
    exact .inl (h'.trans (hback _ (h'.reference hs.reference)))
  · have h' := hlift.adopts hadopts
    exact .inr (h'.alike (hback _ (h'.reference hs.reference)))
  · have h' := hlift.trans halike
    exact .inl (h'.trans (hback _ (h'.reference hs.reference)))

end Solver

namespace Call

theorem modifies_suggestTo (hs : e.Sound) (s : SolverId) (h : ExtVar) (v : Value) :
    Within Modifies e (suggestTo s h v) :=
  .of_askSolver fun solver hsolver ↦
    Step.modifies_adopt hsolver (Solver.suggest_lifted (hs.trusted s solver hsolver) h v _)

theorem modifies_updateDownstream (hs : e.Sound) (x : VarId) (v : Value) :
    Within Modifies e (updateDownstream x v) := by
  have hhandles : Within Recalls e (downstreamHandles x) := by
    refine .lift_bind (Step.recalls_defining x) fun _ _ _ _ ↦ ?_
    exact .variableAt_bind fun _ _ ↦ .pure _
  refine hhandles.bind_of (fun _ ↦ Recalls.modifies) fun handles e₁ _ h₁ ↦ ?_
  refine Within.bind (.forIn fun b _ _ e₂ h₂ ↦ ?_) fun _ _ _ _ ↦ .pure _
  have hs₂ := h₂.sound (h₁.modifies.sound hs)
  exact (modifies_suggestTo hs₂ b.1 b.2 v).bind fun _ _ _ _ ↦ .pure _

theorem modifies_store (x : VarId) (v : Value) : Within Modifies e (store x v) :=
  .lift (Step.within_modifyVariable fun _ ↦ ⟨rfl, rfl, rfl⟩)

theorem evolves_splitInto (hr : r.Lawful) (hs : e.Sound) (v : Value)
    (parts : List (String × VarId)) : Within Evolves e (splitInto r v parts) := by
  refine .forM fun part _ e₁ h₁ ↦ ?_
  obtain ⟨name, part⟩ := part
  dsimp only
  split
  · exact (hr.suggest (h₁.sound hs) _ _ _ _).bind fun _ _ _ _ ↦ .pure _
  · exact .pure _

theorem reads_replacesComposite {R : Engine → Engine → Prop} [Reads R] (x : VarId)
    (old new : Value) : Within R e (replacesComposite x old new) := by
  unfold replacesComposite
  split
  · exact .lift_bind (Reads.defining x) fun _ _ _ _ ↦ .pure _
  · exact .pure _

theorem recalls_replacesComposite (x : VarId) (old new : Value) :
    Within Recalls e (replacesComposite x old new) := reads_replacesComposite x old new

theorem evolves_store (x : VarId) (v : Value) : Within Evolves e (store x v) :=
  (modifies_store x v).mono fun _ ↦ Modifies.evolves

theorem evolves_updateUnbound (hr : r.Lawful) (hs : e.Sound) (x : VarId) (v : Value) :
    Within Evolves e (updateUnbound r x v) := by
  refine .variableAt_bind fun w _ ↦ ?_
  refine (recalls_replacesComposite x _ _).bind_of (fun _ h ↦ h.modifies.evolves)
    fun replaces e₁ _ h₁ ↦ ?_
  have hs₁ := h₁.modifies.sound hs
  split
  · refine .get_bind ?_
    split
    · next hsplitting =>
      have hs₂ : Sound { e₁ with guards := { e₁.guards with splitting := true } } :=
        hs₁.aside rfl rfl rfl (hs₁.tame.beside rfl rfl rfl rfl rfl)
      refine .bracket (evolves_splitInto hr hs₂ v _).attempt (attempt_ne_failed _ _) (fun e₂ h₂ ↦
        h₂.bracket (f := fun g ↦ { g with splitting := true })
          (g := fun g ↦ { g with splitting := false }) fun _ ↦ ?_) fun result e₂ _ _ ↦ ?_
      · rw [Bool.not_eq_true'] at hsplitting
        rw [← hsplitting]
      · exact (Within.ofExcept result).bind fun _ _ _ _ ↦ evolves_store x v
    · exact evolves_store x v
  · refine .get_bind ((evolves_store x v).bind fun _ e₂ _ h₂ ↦ ?_)
    refine Within.bind (.forIn fun id _ _ e₃ h₃ ↦ ?_) fun _ _ _ _ ↦ .pure _
    exact (hr.recalculate (h₃.sound (h₂.sound hs₁)) id).bind fun _ _ _ _ ↦ .pure _

theorem evolves_updateConnected (hr : r.Lawful) (hs : e.Sound) (x : VarId) :
    Within Evolves e (updateConnected r x) := by
  refine .variableAt_bind fun w _ ↦ .get_bind ?_
  refine Within.bind (.forIn fun y _ _ e₁ h₁ ↦ .get_bind ?_) fun _ _ _ _ ↦ .pure _
  split
  · refine .lift_bind_of (Step.recalls_read y) (fun _ h ↦ h.modifies.evolves) fun v e₂ _ h₂ ↦ ?_
    have hs₂ := h₂.modifies.sound (h₁.sound hs)
    exact (hr.suggest hs₂ y v _ _).bind fun _ _ _ _ ↦ .pure _
  · exact .pure _

theorem evolves_putBack (hr : r.Lawful) (hs : e.Sound) (x : VarId) (old : Value) :
    Within Evolves e (putBack r x old) := by
  refine (hr.suggest hs x old _ _).attempt.bind fun result e₁ _ _ ↦ ?_
  cases result with
  | ok _ => exact .pure _
  | error err => exact .get_bind (.lift ((Step.within_report _).mono fun _ ↦ Modifies.evolves))

theorem evolves_spread (hr : r.Lawful) (hs : e.Sound) (x : VarId) (v old : Value)
    (origin : Origin) : Within Evolves e (spread r x v old origin) := by
  refine .get_bind ?_
  split
  · exact .pure _
  · next hstoring =>
    have hs₁ : Sound { e with guards := { e.guards with storing := e.guards.storing ++ [x] } } :=
      hs.aside rfl rfl rfl (hs.tame.beside rfl rfl rfl rfl rfl)
    have hupdate : Within Evolves
        { e with guards := { e.guards with storing := e.guards.storing ++ [x] } } (do
          updateDownstream x v
          updateUnbound r x v
          updateConnected r x) := by
      refine (modifies_updateDownstream hs₁ x v).bind_of (fun _ ↦ Modifies.evolves)
        fun _ e₂ _ h₂ ↦ ?_
      have hs₂ := h₂.sound hs₁
      exact (evolves_updateUnbound hr hs₂ x v).bind fun _ e₃ _ h₃ ↦
        evolves_updateConnected hr (h₃.sound hs₂) x
    have hback : ∀ {e₂ : Engine}, Evolves { e with guards :=
          { e.guards with storing := e.guards.storing ++ [x] } } e₂ → Evolves e { e₂ with guards :=
            { e₂.guards with storing := e₂.guards.storing.erase x } } := by
      intro e₂ h₂
      refine h₂.bracket (f := fun g ↦ { g with storing := g.storing ++ [x] })
        (g := fun g ↦ { g with storing := g.storing.erase x }) fun _ ↦ ?_
      dsimp only
      rw [List.erase_append_right _ (by simpa using hstoring), List.erase_cons_head, List.append_nil]
    refine .bracket hupdate.attempt (attempt_ne_failed _ _) (fun _ ↦ hback) fun result e₂ _ h₂ ↦ ?_
    cases result with
    | ok _ => exact .pure _
    | error err =>
      dsimp only
      split
      · exact (evolves_putBack hr ((hback h₂).sound hs) x old).bind fun _ _ _ _ ↦ .fail _
      · exact .fail _

/-- **Propagating.** -/
theorem evolves_propagate (hr : r.Lawful) (hs : e.Sound) (x : VarId) (v old : Value)
    (origin : Origin) (force : Bool) : Within Evolves e (propagate r x v old origin force) := by
  unfold propagate
  split
  · refine (recalls_storedValue x).bind_of (fun _ h ↦ h.modifies.evolves) fun stored e₁ _ h₁ ↦ ?_
    split
    · exact .pure _
    · exact evolves_spread hr (h₁.modifies.sound hs) x v old origin
  · exact evolves_spread hr hs x v old origin

end Call

end LiveConstraints

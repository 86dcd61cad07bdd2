import LiveConstraints.Engine.Outermost
import LiveConstraints.Proofs.Write
/-!
# The outermost call keeps the invariant

Deferred work is taken up by the outermost call until none is left. So a call that starts while no
other is in progress, and returns, leaves nothing deferred (`Engine.Settles`).
-/

namespace LiveConstraints

open Engine

variable {α : Type} {e e' : Engine} {r : Reentry}

namespace Engine

/-- An engine that evolved and, unless a call is in progress, has nothing deferred. -/
structure Settles (e e' : Engine) : Prop where
  evolves : Evolves e e'
  deferred : e.guards.nesting = 0 → e.guards.draining = false → e.deferred = [] → e'.deferred = []

instance : IsPreorder Engine Settles where
  refl e := ⟨.refl e, fun _ _ h ↦ h⟩
  trans _ _ _ h h' := by
    refine ⟨h.evolves.trans h'.evolves, fun hnesting hdraining hdeferred ↦ ?_⟩
    refine h'.deferred ?_ ?_ (h.deferred hnesting hdraining hdeferred) <;> rw [h.evolves.guards]
    · exact hnesting
    · exact hdraining

theorem Modifies.settles (h : Modifies e e') : Settles e e' :=
  ⟨h.evolves, fun _ _ hdeferred ↦ h.deferred.trans hdeferred⟩

theorem Settles.sound (h : Settles e e') (hs : e.Sound) : e'.Sound := h.evolves.sound hs

end Engine

namespace Call

/-! ### Deferred work -/

theorem takeDeferred_eq (e : Engine) : takeDeferred e = match e.deferred with
    | [] => (.ok none, e)
    | work :: rest => (.ok (some work), { e with deferred := rest }) := by
  unfold takeDeferred
  rw [get_run]
  cases e.deferred <;> rfl

/-- What is taken up may be done. -/
theorem gives_takeDeferred (ht : e.Tame) : Gives Evolves e takeDeferred fun work? e' ↦
    (work? = none → e'.deferred = []) ∧ ∀ handler errors, work? = some (.handle handler errors) →
      Admissible handler.actions := by
  refine .get_bind ?_
  cases hdeferred : e.deferred with
  | nil => exact .pure ⟨fun _ ↦ hdeferred, nofun⟩
  | cons work rest =>
    have hmem : ∀ {other}, other ∈ rest → other ∈ e.deferred := fun h ↦ by
      rw [hdeferred]
      exact List.mem_cons_of_mem _ h
    have htake : Evolves e { e with deferred := rest } :=
      ⟨.single (.aside rfl rfl rfl rfl rfl fun ht ↦ ⟨ht.evaluator, ht.hooks, ht.options,
        fun handler errors h ↦ ht.deferred handler errors (hmem h), ht.pending⟩), rfl, id⟩
    refine ⟨.modify_bind htake (.pure _), fun work? e' hrun ↦ ?_⟩
    cases hrun
    refine ⟨nofun, fun handler errors heq ↦ ?_⟩
    cases heq
    exact ht.deferred handler errors (by rw [hdeferred]; exact List.mem_cons_self)

theorem unfailing_takeDeferred : Unfailing takeDeferred := by
  refine .get_bind fun e ↦ ?_
  cases e.deferred with
  | nil => exact .pure _
  | cons work rest => exact (Unfailing.lift (modify _)).bind fun _ ↦ .pure _

theorem unfailing_handle (hact : ∀ requests, Unfailing (r.act requests)) (handler : ErrorHandler)
    (errors : List EngineError) : Unfailing (handle r handler errors) :=
  (Unfailing.lift _).bind fun _ ↦ hact handler.actions

theorem unfailing_drain (hact : ∀ requests, Unfailing (r.act requests)) (n : Nat)
    (failures : List EngineError) : Unfailing (drain r n failures) := by
  induction n generalizing failures with
  | zero =>
    refine .get_bind fun e ↦ ?_
    split
    · exact .pure _
    · exact .tooDeep
  | succ n ih =>
    refine unfailing_takeDeferred.bind fun work? ↦ ?_
    match work? with
    | none => exact .pure _
    | some (.handle handler errors) => exact (unfailing_handle hact handler errors).bind fun _ ↦ ih _
    | some (.rethrow err) => exact ih _

/-- **Draining.** When it returns, nothing is deferred. -/
theorem gives_drain (hr : r.Lawful) (hs : e.Sound) (n : Nat) (failures : List EngineError) :
    Gives Evolves e (drain r n failures) fun _ e' ↦ e'.deferred = [] := by
  induction n generalizing e failures with
  | zero =>
    refine .get_bind ?_
    split
    · next hempty => exact .pure (List.isEmpty_iff.1 hempty)
    · exact .tooDeep
  | succ n ih =>
    refine (gives_takeDeferred hs.tame).bind fun work? e₁ h₁ hwork ↦ ?_
    have hs₁ := h₁.sound hs
    obtain ⟨hnone, hhandler⟩ := hwork
    match work? with
    | none => exact .pure (hnone rfl)
    | some (.rethrow err) => exact ih hs₁ _
    | some (.handle handler errors) =>
      have hhandle : Within Evolves e₁ (handle r handler errors) :=
        .lift_bind_of (Step.within_record _) (fun _ ↦ Modifies.evolves) fun _ e₂ _ h₂ ↦
          hr.act (h₂.sound hs₁) (hhandler handler errors rfl)
      exact hhandle.bind_gives fun _ e₂ _ h₂ ↦ ih (h₂.sound hs₁) _

/-- **Settling.** Unless a call is in progress, nothing is deferred any more. -/
theorem within_settle (hr : r.Lawful) (hs : e.Sound) :
    Within (fun e e' ↦ Evolves e e' ∧
      (e.guards.nesting = 0 → e.guards.draining = false → e'.deferred = [])) e (settle r) := by
  refine .get_bind ?_
  dsimp only
  split
  · next hbusy =>
    refine fun _ ↦ ⟨.refl e, fun hnesting hdraining ↦ ?_⟩
    simp [hnesting, hdraining] at hbusy
  · next hidle =>
    have hdraining : e.guards.draining = false := by
      simp only [Bool.or_eq_true, decide_eq_true_eq, not_or, Bool.not_eq_true] at hidle
      exact hidle.2
    intro hreturns
    have hs₁ : Sound { e with guards := { e.guards with draining := true } } :=
      hs.aside rfl rfl rfl (hs.tame.beside rfl rfl rfl rfl rfl)
    have hdrain := gives_drain hr hs₁ r.patience []
    rcases hrun : drain r r.patience [] { e with guards := { e.guards with draining := true } }
      with ⟨(err | -) | failures, e₁⟩
    · exact absurd (by rw [hrun]) (unfailing_drain hr.unfailing r.patience [] _ err)
    · exact absurd (by rw [bracket_of_error hrun]) hreturns
    · have hevolves : Evolves e { e₁ with guards := { e₁.guards with draining := false } } := by
        refine (hdrain.within.of_ok hrun).bracket (f := fun g ↦ { g with draining := true })
          (g := fun g ↦ { g with draining := false }) fun _ ↦ ?_
        rw [← hdraining]
      rw [bracket_of_ok hrun]
      have hdeferred := hdrain.result _ _ hrun
      cases EngineError.merge? failures with
      | none => exact ⟨hevolves, fun _ _ ↦ hdeferred⟩
      | some err => exact ⟨hevolves, fun _ _ ↦ hdeferred⟩

/-- **A call of its own.** -/
theorem settles_topLevel (hr : r.Lawful) {call : Call α}
    (hcall : ∀ {e}, e.Sound → Within Evolves e call) (hs : e.Sound) :
    Within Settles e (topLevel r call) := by
  have hs₁ : Sound { e with guards := { e.guards with nesting := e.guards.nesting + 1 } } :=
    hs.aside rfl rfl rfl (hs.tame.beside rfl rfl rfl rfl rfl)
  intro hreturns
  rcases hrun : attempt call
    { e with guards := { e.guards with nesting := e.guards.nesting + 1 } } with
    ⟨(err | -) | result, e₁⟩
  · exact absurd (by rw [hrun]) (attempt_ne_failed call _ err)
  · exact absurd (by rw [topLevel, bracket_of_error hrun]) hreturns
  · have h₁ : Evolves e { e₁ with guards := { e₁.guards with nesting := e₁.guards.nesting - 1 } } :=
      ((hcall hs₁).attempt.of_ok hrun).bracket (f := fun g ↦ { g with nesting := g.nesting + 1 })
        (g := fun g ↦ { g with nesting := g.nesting - 1 }) fun _ ↦ rfl
    rw [topLevel, bracket_of_ok hrun] at hreturns ⊢
    have hsettle := (within_settle hr (h₁.sound hs)).attempt
    rcases hsettled : attempt (settle r)
      { e₁ with guards := { e₁.guards with nesting := e₁.guards.nesting - 1 } } with
      ⟨halt | settled, e₂⟩
    · rw [bind_of_error hsettled] at hreturns
      cases halt with
      | failed err => exact absurd (by rw [hsettled]) (attempt_ne_failed (settle r) _ err)
      | tooDeep => exact absurd rfl hreturns
    · rw [bind_of_ok hsettled]
      obtain ⟨h₂, hdeferred⟩ := hsettle.of_ok hsettled
      have hsettles : Settles e e₂ := ⟨h₁.trans h₂, fun hnesting hdraining _ ↦
        hdeferred ((congrArg Guards.nesting h₁.guards).trans hnesting)
          ((congrArg Guards.draining h₁.guards).trans hdraining)⟩
      -- the outcome does not change the engine
      cases result with
      | error err => exact hsettles
      | ok a => cases settled <;> exact hsettles

/-- Where nothing is deferred, nothing is taken up. -/
theorem drain_eq (hdeferred : e.deferred = []) (n : Nat) (failures : List EngineError) :
    drain r n failures e = (.ok failures, e) := by
  cases n with
  | zero =>
    rw [drain, get_run, hdeferred]
    rfl
  | succ n =>
    have htake : takeDeferred e = (.ok none, e) := by rw [takeDeferred_eq, hdeferred]
    rw [drain, bind_of_ok htake]
    rfl

theorem settle_eq (hdeferred : e.deferred = []) : settle r e = (.ok ⟨⟩, e) := by
  unfold settle
  rw [get_run]
  split
  · rfl
  · next hidle =>
    have hdraining : e.guards.draining = false := by
      simp only [Bool.or_eq_true, decide_eq_true_eq, not_or, Bool.not_eq_true] at hidle
      exact hidle.2
    have hguards : { e.guards with draining := false } = e.guards := by rw [← hdraining]
    have hdrain := drain_eq (r := r) (e := { e with guards := { e.guards with draining := true } })
      hdeferred r.patience []
    rw [bracket_of_ok hdrain, hguards]
    rfl

/-- A call of its own that defers nothing has the outcome of the call. -/
theorem topLevel_eq {call : Call α} {outcome : Except Halt α}
    (hcall : call { e with guards := { e.guards with nesting := e.guards.nesting + 1 } }
      = (outcome, e'))
    (hreturns : outcome ≠ .error .tooDeep) (hdeferred : e'.deferred = []) : topLevel r call e
      = (outcome, { e' with guards := { e'.guards with nesting := e'.guards.nesting - 1 } }) := by
  have hsettle := attempt_ok (settle_eq (r := r)
    (e := { e' with guards := { e'.guards with nesting := e'.guards.nesting - 1 } }) hdeferred)
  unfold topLevel
  match outcome with
  | .ok a =>
    rw [bracket_of_ok (attempt_ok hcall), bind_of_ok hsettle]
    rfl
  | .error (.failed err) =>
    rw [bracket_of_ok (attempt_failed hcall), bind_of_ok hsettle]
    rfl
  | .error .tooDeep => exact absurd rfl hreturns

/-- A call of its own succeeds only if the call does, and then what it deferred. -/
theorem of_topLevel_ok {call : Call α} {a : α} (hrun : topLevel r call e = (.ok a, e')) :
    ∃ e₁, call { e with guards := { e.guards with nesting := e.guards.nesting + 1 } } = (.ok a, e₁) ∧
      settle r { e₁ with guards := { e₁.guards with nesting := e₁.guards.nesting - 1 } }
        = (.ok ⟨⟩, e') := by
  obtain ⟨_, e₁, hraise, hrun⟩ := of_bind_ok hrun
  obtain ⟨result, e₂, hcall, hrun⟩ := of_bind_ok hrun
  obtain ⟨_, e₃, hlower, hrun⟩ := of_bind_ok hrun
  obtain ⟨settled, e₄, hsettle, hrun⟩ := of_bind_ok hrun
  obtain ⟨b, e₅, hresult, hrun⟩ := of_bind_ok hrun
  obtain ⟨_, e₆, hsettled, hrun⟩ := of_bind_ok hrun
  cases hrun
  cases hraise
  cases hlower
  cases result with
  | error err => cases hresult
  | ok _ =>
    cases hresult
    cases settled with
    | error err => cases hsettled
    | ok _ =>
      cases hsettled
      exact ⟨e₂, of_attempt_ok hcall, of_attempt_ok hsettle⟩

end Call

end LiveConstraints

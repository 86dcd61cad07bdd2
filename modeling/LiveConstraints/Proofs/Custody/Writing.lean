import LiveConstraints.Proofs.Custody.Shielding
/-!
# What a write releases

A write pins the handles of a closure before it makes its offer (`Call.shields_of_suggestPrimary`)
and names the closure in what it leaves behind (`Call.shields_of_absorb`). Whatever happened
meanwhile, the variables of the closure are not pinned once the write is taken back, and nothing
fails between the two, so that a write protects what there was (`Call.shields_suggest`).
-/

namespace LiveConstraints

open Engine

variable {e e' : Engine} {r : Reentry} {x : VarId} {xs ys : List VarId}

namespace Step

/-- Variables that are released one after the other are not pinned afterwards. -/
theorem unpinned_forM (hx : x ∈ xs) (e : Engine) :
    ¬ ((xs.forM unpinDownstream : Step Unit) e).2.Pinned x := by
  induction xs generalizing e with
  | nil => cases hx
  | cons y xs ih =>
    by_cases hmem : x ∈ xs
    · exact ih hmem _
    · obtain rfl : x = y := (List.mem_cons.1 hx).resolve_right hmem
      have hrest : Conserves [] (unpinDownstream x e).2
          ((xs.forM unpinDownstream : Step Unit) (unpinDownstream x e).2).2 :=
        Within.forM fun y _ _ _ ↦ conserves_unpinDownstream y
      exact fun h ↦ (hrest.pins x h).elim (unpinned_unpinDownstream x e) List.not_mem_nil

theorem shields_unpinDownstream (x : VarId) :
    Within (ShieldsBut xs ys) e (unpinDownstream x) :=
  Conserves.shields (conserves_unpinDownstream x) (secures_unpinDownstream x)

theorem shields_initiate (d : Option Defining) :
    Within (ShieldsBut xs ys) e (initiate d) := by
  unfold initiate
  split
  · exact .pure _
  · refine .get_bind ?_
    split
    · exact .pure _
    · next id _ _ c _ =>
      have hmarked : Within (ShieldsBut xs ys) e
          (modifyConstraint id fun c ↦ { c with initiating := true }) :=
        shields_aside rfl rfl rfl rfl
      split
      · exact .pure _
      · exact hmarked.bind fun _ _ _ _ ↦ .pure _

/-- A solver gets another weight. -/
theorem shieldsBut_weigh (s : SolverId) (weight : Solver → Float) :
    Within (ShieldsBut xs ys) e
      (modifySolver s fun solver => solver.setWeight (weight solver)) :=
  Conserves.shields (conserves_of_vars rfl rfl rfl) (ordinary_weigh s weight)

/-- Taking a bump back pins nothing and stores nothing. -/
theorem shieldsBut_unbump (s : SolverId) (zs : List VarId) :
    Within (ShieldsBut xs ys) e (unbump s zs) :=
  .get_bind ((shieldsBut_weigh s _).bind fun _ _ _ _ ↦ ordinary_tick.bind fun _ _ _ _ ↦
    .forM fun x _ _ _ ↦ shields_unpinDownstream x)

/-- What was pinned for the variables of a closure is released. -/
theorem shields_unbump {e₀ : Engine} {s : SolverId} (h : ShieldsBut xs [] e₀ e) :
    Shields e₀ (unbump s xs e).2 := by
  have hall := trans_of (ShieldsBut xs []) h (shieldsBut_unbump s xs)
  refine ⟨⟨fun x hx ↦ .inl ((hall.pins x hx).resolve_right fun hmem ↦ ?_), hall.journal⟩,
    hall.protects⟩
  exact unpinned_forM hmem _ hx

end Step

namespace Call

/-- The variables whose handles a write pinned. -/
def Bumped.vars (b : Bumped) : List VarId := (b.map Prod.snd).getD []

theorem shields_bump (s : SolverId) (xs : List VarId) :
    Step.Within (ShieldsBut xs ys) e (Step.bump s xs) := by
  refine .get_bind ((Step.shieldsBut_weigh s _).bind fun _ e₁ _ _ ↦ ?_)
  refine Step.ordinary_tick.bind fun _ e₂ _ _ ↦ .forM fun x hx e₃ _ ↦ ?_
  exact Conserves.shields (Step.conserves_pinDownstream hx) (Step.secures_pinDownstream x)

theorem shields_bumpFor (x : VarId) (origin : Origin) (d : Defining) (e : Engine) :
    ShieldsBut (bumpFor x origin d e).1.vars ys e (bumpFor x origin d e).2 := by
  unfold bumpFor
  split
  · exact refl_of (ShieldsBut [] ys) e
  · exact trans_of (ShieldsBut _ ys) (Recalls.shields (Step.recalls_closure x)) (shields_bump d.solver _)

/-- An offer pins what is bumped for it. -/
theorem shields_of_offer {v : Value} {origin : Origin} {d : Defining} {b : Bumped}
    {result : Except EngineError Unit} (hrun : offer x v origin d e = (.ok (b, result), e')) :
    ShieldsBut b.vars ys e e' := by
  obtain ⟨bumped, e₁, hbump, hrun⟩ := of_bind_ok hrun
  obtain ⟨answer, e₂, hsuggest, hrun⟩ := of_bind_ok hrun
  cases hrun
  have hbumped : ShieldsBut b.vars ys e e₁ := by
    cases hbump
    exact shields_bumpFor x origin d e
  exact trans_of (ShieldsBut b.vars ys) hbumped
    ((operating_suggestTo d.solver d.handle v).attempt.of_ok hsuggest)

theorem shields_of_suggestPrimary {v : Value} {origin : Origin} {d : Defining} {b : Bumped}
    {result : Except EngineError Unit}
    (hrun : suggestPrimary x v origin d e = (.ok (b, result), e')) :
    ShieldsBut b.vars ys e e' := by
  refine of_suggestPrimary (P := fun b ↦ ShieldsBut b.vars ys e) hrun (refl_of (ShieldsBut [] ys) e)
    fun e₁ hoffer ↦ ?_
  have hraised : ShieldsBut b.vars ys e
      { e with guards := { e.guards with suggesting := e.guards.suggesting ++ [x] } } :=
    shields_aside rfl rfl rfl rfl
  have hlowered : ShieldsBut b.vars ys e₁
      { e₁ with guards := { e₁.guards with suggesting := e₁.guards.suggesting.erase x } } :=
    shields_aside rfl rfl rfl rfl
  exact trans_of (ShieldsBut _ ys) hraised (trans_of (ShieldsBut _ ys) (shields_of_offer hoffer)
    (trans_of (ShieldsBut _ ys) hlowered (Step.operating_reportSolve _ _ _)))

variable {w : Written} {v old : Value} {origin : Origin} {force outermost : Bool}

/-- What a write pins is named in what it leaves behind. -/
theorem shields_of_absorb (hr : r.Shielding)
    (hrun : absorb r x v old origin force outermost e = (.ok w, e')) :
    ShieldsBut w.bumped.vars [] e e' :=
  of_absorb (P := fun e₁ ↦ ∀ zs, ShieldsBut zs [] e e₁) (Q := fun b ↦ ShieldsBut b.vars [] e) hrun
    (fun zs ↦ trans_of (ShieldsBut zs []) (Reads.defining x) (Step.shields_initiate _))
    (fun h ↦ h []) (fun h hprimary ↦
      trans_of (ShieldsBut _ []) (h _) (shields_of_suggestPrimary hprimary))
    fun initiating h hne ↦ trans_of (ShieldsBut _ []) h
      (shields_followUp hr x v old origin force outermost initiating hne).but

theorem shieldsBut_unmark (initiating : Option ConstraintId) (result : Except EngineError Unit) :
    Step.Within (ShieldsBut xs ys) e (Written.takeBack ⟨initiating, none, result⟩) := by
  cases initiating with
  | none => exact .pure _
  | some id => exact shields_aside rfl rfl rfl rfl

theorem shieldsBut_takeBack (w : Written) : Step.Within (ShieldsBut xs ys) e w.takeBack := by
  obtain ⟨initiating, bumped, result⟩ := w
  cases bumped with
  | none => exact shieldsBut_unmark initiating result
  | some b => exact (Step.shieldsBut_unbump b.1 b.2).bind fun _ _ _ _ ↦ shieldsBut_unmark initiating result

/-- A write that is taken back pins nothing. -/
theorem shields_takeBack {e₀ : Engine} (h : ShieldsBut w.bumped.vars [] e₀ e) :
    Shields e₀ (w.takeBack e).2 := by
  obtain ⟨initiating, bumped, result⟩ := w
  cases bumped with
  | none => exact trans_of Shields h (shieldsBut_unmark initiating result)
  | some b => exact trans_of Shields (Step.shields_unbump h) (shieldsBut_unmark initiating result)

theorem shields_pendingHooks (hooks : Option (List PendingHook)) :
    ShieldsBut xs ys e { e with pendingHooks := hooks } := shields_aside rfl rfl rfl rfl

/-- **Writing.** What was pinned is released, and what is stored under guard is kept. -/
theorem shields_suggest (hr : r.Shielding) (x : VarId) (v : Value) (origin : Origin)
    (force : Bool) : Within Shields e (suggest r x v origin force) :=
  stays_suggest fun hooks _ _ hrun ↦ shields_takeBack
    (trans_of (ShieldsBut _ []) (shields_of_absorb hr hrun) (shields_pendingHooks hooks))

end Call

end LiveConstraints

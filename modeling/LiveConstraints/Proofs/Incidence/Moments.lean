import LiveConstraints.Proofs.Quiescence.Answering
/-!
# Every engine is incident, at every moment

Whatever solvers an engine has and whatever requests are made of it, between requests its tables are
incident, and they are whenever a hook or handler has its turn: when it starts, after each request that it
makes and when it ends (`Engine.Driven.incident`).

A hook or handler runs in the middle of a call, so it is not enough to know of the engines between
calls. `Reentry.checking` are ways back into the engine that differ from the ordinary ones where it
matters: where a reaction has its turn at an engine without a given property, anything at all is done in
place of the rest of it. If a call does the same with either, every reaction finds the property, from its
start to its end.
-/

namespace LiveConstraints

open Engine

variable {e e' : Engine} {r r' : Reentry} {config : Setup}

/-! ### Checking reactions -/

/-- Goes on where a property of the engine holds. Elsewhere something else is done. -/
noncomputable def Call.goOnWhere (P : Engine → Prop) (other m : Call Unit) : Call Unit := fun e ↦
  open scoped Classical in
  if P e then m e else other e

/-- Makes the requests of a reaction as `follow` does, but goes on only where a property of the engine
holds. -/
noncomputable def Call.followWhere (P : Engine → Prop) (other : Call Unit) (r : Reentry) :
    Reaction → Call Unit
  | .done => goOnWhere P other (return ())
  | .ask request next => goOnWhere P other do
    let outcome ← attempt (perform r request)
    Step.record (.made request outcome)
    followWhere P other r (next outcome (← get))

/-- The ways back into the engine when `n` more calls may be nested, with hooks and handlers of a
program, which go on only where a property of the engine holds. -/
noncomputable def Reentry.checking (P : Engine → Prop) (other : Call Unit) (program : Program) :
    Nat → Reentry
  | 0 => exhausted
  | n + 1 => {
    patience := n + 1
    suggest := fun x v origin force => Call.suggest (checking P other program n) x v origin force
    recalculate := fun id => Call.recalculate (checking P other program n) id
    act := fun requests e =>
      Call.followWhere P other (checking P other program n) (program requests e) e }

section Mirroring

variable {I P : Engine → Prop} {R : Engine → Engine → Prop}

/-- Where an invariant gives the property, nothing else is done. -/
theorem Call.Matches.goOnWhere {m m' : Call Unit} (hP : I e → P e) (other : Call Unit)
    (hm : Matches I R e m m') : Matches I R e (goOnWhere P other m) m' :=
  fun hI ↦ (hm hI).of_eq (if_pos (hP hI))

variable [Lasting R] [Persists I R]

/-- **Reacting**, where an invariant gives the property all along. -/
theorem Call.matches_followWhere (hP : ∀ e, I e → P e) (other : Call Unit) (hr : r.Mirrors I R r')
    (reaction : Reaction) : Matches I R e (followWhere P other r reaction) (follow r' reaction) := by
  induction reaction generalizing e with
  | done => exact .goOnWhere (hP e) other (.pure _)
  | ask request next ih =>
    refine .goOnWhere (hP e) other ?_
    refine (matches_perform hr request).attempt.bind fun outcome e₁ _ ↦ ?_
    refine .step_bind (Lasting.aside _ _ _ rfl) fun _ e₂ ↦ .get_bind ?_
    exact ih outcome e₂

/-- The ways back do the same, if an invariant gives the property. -/
theorem Reentry.mirrors_checking (hP : ∀ e, I e → P e) (other : Call Unit) (program : Program) (n : Nat) :
    (checking P other program n).Mirrors I R (reacting program n) := by
  induction n with
  | zero => exact mirrors_exhausted
  | succ n ih =>
    rw [checking, reacting]
    exact {
      patience := rfl
      suggest := fun _ x v origin force ↦ Call.matches_suggest ih x v origin force
      recalculate := fun _ id ↦ Call.matches_recalculate ih id
      act := fun e requests ↦ Call.matches_followWhere hP other ih (program requests e) }

end Mirroring

namespace Engine

/-- **The tables of an engine are incident** between requests, whatever solvers it has, whatever it was
asked before and whatever hooks and handlers made of it; and in the course of the next request they are
whenever a hook or handler has its turn, for what would be done elsewhere makes no difference. -/
theorem Driven.incident (h : Driven config e) : e.Incident ∧
    ∀ (other : Call Unit) (program : Program) (n : Nat) (request : Request),
      Call.perform (Reentry.checking Incident other program n) request e
        = Call.perform (Reentry.reacting program n) request e := by
  refine ⟨incident_of_tied h.tied, fun other program n request ↦ ?_⟩
  have hmirrors : (Reentry.checking Incident other program n).Mirrors Tied Maintains _ :=
    Reentry.mirrors_checking (fun _ ↦ incident_of_tied) other program n
  exact (Call.matches_perform hmirrors request h.tied).1

/-- A constrained field with a hook. -/
def hooked : List Request := [
  .addSolver (.relaxation 1000 1e-9) false,
  .createObject [("x", .number 1), ("y", .number 2)],
  .always (.binary .ge (Expr.fieldOf 0 "x") (.const (.number 0))) { solver := some ⟨0⟩ },
  .onWrite ⟨0⟩ "x" []]

/-- The hook compares another field with the value that it finds in the first one, and frees the first one
if that succeeded. -/
def comparing : Program := fun _ _ ↦
  .ask (.always (.binary .ge (Expr.fieldOf 0 "y") (Expr.fieldOf 0 "x")) { solver := some ⟨0⟩ })
    fun outcome _ ↦ match outcome with
      | .ok _ => .ask (.unconstrain ⟨0⟩ "x") fun _ _ ↦ .done
      | .error _ => .done

/-- A write runs the hook, which lets another field be intercepted and the field itself be free. -/
theorem incident_hooked : ((new {}).run hooked).Incident ∧
    ((new {}).run hooked).variableOf? ⟨0⟩ "y" = none ∧
    ∀ other, (Call.perform (Reentry.checking Incident other comparing 20)
        (.write ⟨0⟩ "x" (.number 5)) ((new {}).run hooked)).2.variableOf? ⟨0⟩ "y" = some ⟨1⟩ ∧
      (Call.perform (Reentry.checking Incident other comparing 20)
        (.write ⟨0⟩ "x" (.number 5)) ((new {}).run hooked)).2.variableOf? ⟨0⟩ "x" = none := by
  have hrun : Driven {} ((new {}).run hooked) := .run .new (by decide +kernel)
  obtain ⟨hincident, hmoments⟩ := hrun.incident
  refine ⟨hincident, by decide +kernel, fun other ↦ ?_⟩
  rw [hmoments]
  exact ⟨by decide +kernel, by decide +kernel⟩

end Engine

end LiveConstraints

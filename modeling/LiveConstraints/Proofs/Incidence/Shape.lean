import LiveConstraints.Proofs.Incidence.Links
import LiveConstraints.Proofs.Ordinary
/-!
# What leaves the links alone

Solving, storing, switching and bumping change solvers, values and flags, and no reference between the
tables. Each such operation stays within `Engine.SameShape`, whatever the solvers answer.
-/

namespace LiveConstraints

open Engine

variable {α : Type} {e : Engine} {x : VarId} {id : ConstraintId}

/-! ### Steps -/

namespace Step

theorem sameShape_tick : Within SameShape e tick := sameShape_aside rfl rfl rfl

theorem sameShape_report (event : Event) : Within SameShape e (report event) :=
  sameShape_aside rfl rfl rfl

theorem sameShape_modifyGuards (f : Guards → Guards) : Within SameShape e (modifyGuards f) :=
  sameShape_aside rfl rfl rfl

theorem sameShape_modifySolver (s : SolverId) (f : Solver → Solver) :
    Within SameShape e (modifySolver s f) := sameShape_aside rfl rfl rfl

theorem sameShape_modifyVariable {f : Variable → Variable} (shape : ∀ v, (f v).shape = v.shape) :
    Within SameShape e (modifyVariable x f) := sameShape_variable shape

theorem sameShape_modifyConstraint {f : Constraint → Constraint} (vars : ∀ c, (f c).vars = c.vars) :
    Within SameShape e (modifyConstraint id f) := sameShape_constraint vars

theorem sameShape_read (x : VarId) : Within SameShape e (read x) :=
  (recalls_read x).mono fun _ ↦ Recalls.sameShape

theorem sameShape_defining (x : VarId) : Within SameShape e (defining x) :=
  (recalls_defining x).mono fun _ ↦ Recalls.sameShape

/-- A solver changes once for each element of a list. -/
theorem sameShape_modifyAll (l : List α) (s : α → SolverId) (f : α → Solver → Solver) :
    Within SameShape e (forIn l PUnit.unit fun a _ ↦ do
      modifySolver (s a) (f a)
      pure (.yield PUnit.unit)) :=
  .forIn fun a _ _ _ _ ↦ (sameShape_modifySolver (s a) (f a)).bind fun _ _ _ _ ↦ .pure _

theorem sameShape_disable (id : ConstraintId) : Within SameShape e (disable id) := by
  refine .get_bind ?_
  split
  · exact .pure _
  · split
    · refine (sameShape_modifyAll _ _ _).bind fun _ _ _ _ ↦ ?_
      refine Within.bind (sameShape_modifyConstraint ?_) fun _ _ _ _ ↦ sameShape_tick
      exact fun _ ↦ rfl
    · exact .pure _

instance : Reads SameShape where
  defining := sameShape_defining

theorem sameShape_pinDownstream (x : VarId) : Within SameShape e (pinDownstream x) :=
  within_pinDownstream (fun s _ _ ↦ sameShape_modifySolver s _)
    fun _ ↦ sameShape_modifyVariable fun _ ↦ rfl

theorem sameShape_unpinDownstream (x : VarId) : Within SameShape e (unpinDownstream x) :=
  within_unpinDownstream (fun s _ _ ↦ sameShape_modifySolver s _)
    fun _ ↦ sameShape_modifyVariable fun _ ↦ rfl

theorem sameShape_bump (s : SolverId) (xs : List VarId) : Within SameShape e (bump s xs) := by
  refine .get_bind ((sameShape_modifySolver s _).bind fun _ _ _ _ ↦ ?_)
  exact sameShape_tick.bind fun _ _ _ _ ↦ .forM fun x _ _ _ ↦ sameShape_pinDownstream x

theorem sameShape_unbump (s : SolverId) (xs : List VarId) : Within SameShape e (unbump s xs) := by
  refine .get_bind ((sameShape_modifySolver s _).bind fun _ _ _ _ ↦ ?_)
  exact sameShape_tick.bind fun _ _ _ _ ↦ .forM fun x _ _ _ ↦ sameShape_unpinDownstream x

end Step

/-! ### Calls -/

namespace Call

theorem sameShape_callSolver (s : SolverId) (f : Solver → α × Solver) :
    Within SameShape e (callSolver s f) :=
  .of_callSolver fun _ _ ↦ sameShape_aside rfl rfl rfl

theorem sameShape_askSolver (s : SolverId) (f : Solver → Except SolverError α × Solver) :
    Within SameShape e (askSolver s f) :=
  .of_askSolver fun _ _ ↦ sameShape_aside rfl rfl rfl

theorem sameShape_changeConstraint {f : Constraint → Constraint} (vars : ∀ c, (f c).vars = c.vars) :
    Within SameShape e (changeConstraint id f) :=
  .constraintAt_bind fun _ _ ↦ .lift (Step.sameShape_modifyConstraint vars)

/-! ### Suggesting and storing -/

theorem sameShape_store (x : VarId) (v : Value) : Within SameShape e (store x v) :=
  .lift (Step.sameShape_modifyVariable fun _ ↦ rfl)

theorem sameShape_bumpFor (x : VarId) (origin : Origin) (d : Defining) :
    Step.Within SameShape e (bumpFor x origin d) := by
  unfold bumpFor
  split
  · exact .pure _
  · refine ((Step.recalls_closure x).mono fun _ ↦ Recalls.sameShape).bind fun closure e₁ _ _ ↦ ?_
    exact (Step.sameShape_bump d.solver closure).bind fun _ _ _ _ ↦ .pure _

/-! ### Switching -/

theorem sameShape_activate (id : ConstraintId) (c : Constraint) :
    Within SameShape e (activate id c) := by
  unfold activate
  refine Within.bind (.forIn fun p _ _ e₁ _ ↦ ?_) fun _ e₁ _ _ ↦ ?_
  · exact (sameShape_askSolver c.solver _).bind fun _ _ _ _ ↦ .pure _
  · refine Within.bind (sameShape_changeConstraint ?_) fun _ e₂ _ _ ↦ ?_
    · exact fun _ ↦ rfl
    · split
      · exact sameShape_askSolver c.solver _
      · exact .pure _

theorem sameShape_deactivate (id : ConstraintId) (c : Constraint) :
    Step.Within SameShape e (deactivate id c) := by
  refine (Step.sameShape_modifyAll _ _ _).bind fun _ _ _ _ ↦ ?_
  refine Step.Within.bind (Step.sameShape_modifyConstraint ?_) fun _ _ _ _ ↦ Step.sameShape_tick
  exact fun _ ↦ rfl

/-! ### Solver variables from outside -/

theorem sameShape_setReadonly (obj : ObjectId) (field : String) (on : Bool) :
    Within SameShape e (setReadonly obj field on) :=
  within_setReadonly (fun _ _ _ ↦ sameShape_aside rfl rfl rfl) obj field on

theorem sameShape_setWeight (s : SolverId) (weight : Float) :
    Within SameShape e (setWeight s weight) :=
  (sameShape_callSolver s _).bind fun _ _ _ _ ↦ .lift Step.sameShape_tick

end Call

end LiveConstraints

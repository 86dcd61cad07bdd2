import LiveConstraints.Solver
/-!
# Solvers and their behaviour

A solver from outside the library is known by what it answers after any calls (`Behaviour`). That is no
more than can be said of the algorithms of the library: each of them has a behaviour
(`Behaviour.ofSolver`), and the solver that has nothing but that behaviour gives the same answers
(`Solver.answersAlike_disguised`). So whatever holds of an engine with any solvers holds with the
library's own.
-/

namespace LiveConstraints

variable {s : Solver} {history : SolverHistory}

namespace Solver

/-! ### Calls one after another -/

/-- The solver that a call leaves behind, whatever its outcome. -/
def after (s : Solver) : SolverCall → Solver
  | .declare v label => (s.declare v label).2
  | .removeVariable x => s.removeVariable x
  | .compile t => (s.compile t).2
  | .keep x v => (s.keep x v).2
  | .setEnabled p priority => (s.setEnabled p priority).2
  | .removePrimitive p => s.removePrimitive p
  | .solve => s.solve.2
  | .suggest x v => (s.suggest x v).2
  | .setReadonly x on => s.setReadonly x on
  | .stay x priority => (s.stay x priority).2
  | .removeStay x => s.removeStay x
  | .prepareEdit x => s.prepareEdit x
  | .beginEdit xs => (s.beginEdit xs).2
  | .resolveBatch values => (s.resolveBatch values).2
  | .releaseEdit x => s.releaseEdit x
  | .endEdit => s.endEdit.2
  | .setWeight weight => s.setWeight weight

/-- Whether a call succeeds that asks for nothing else. -/
def outcome (s : Solver) : SolverCall → Except SolverError Unit
  | .setEnabled p priority => (s.setEnabled p priority).1
  | .solve => s.solve.1
  | .suggest x v => (s.suggest x v).1
  | .stay x priority => (s.stay x priority).1
  | .beginEdit xs => (s.beginEdit xs).1
  | .resolveBatch values => (s.resolveBatch values).1
  | .endEdit => s.endEdit.1
  | _ => .ok ()

/-- The solver after calls, the last of which comes first. -/
def replay (s : Solver) (history : SolverHistory) : Solver :=
  history.foldr (fun call s => s.after call) s

/-! ### Answers -/

/-- Two solvers answer every question and every call alike. -/
structure AnswersAlike (s t : Solver) : Prop where
  name : t.name = s.name
  weight : t.weight = s.weight
  capabilities : t.capabilities = s.capabilities
  supportsOperation : t.supportsOperation = s.supportsOperation
  alternativeFor? : t.alternativeFor? = s.alternativeFor?
  stats : t.stats = s.stats
  value : t.value = s.value
  isReadonly : t.isReadonly = s.isReadonly
  declare : ∀ v label, (t.declare v label).1 = (s.declare v label).1
  compile : ∀ term, (t.compile term).1 = (s.compile term).1
  keep : ∀ x v, (t.keep x v).1 = (s.keep x v).1
  outcome : t.outcome = s.outcome

end Solver

/-- What a solver answers after any calls. -/
def Behaviour.ofSolver (s : Solver) : Behaviour where
  capabilities history := (s.replay history).capabilities
  supports history := (s.replay history).supportsOperation
  alternative? history := (s.replay history).alternativeFor?
  declare history v label := ((s.replay history).declare v label).1
  compile history t := ((s.replay history).compile t).1
  keep history x v := ((s.replay history).keep x v).1
  outcome history := (s.replay history).outcome
  value history := (s.replay history).value
  isReadonly history := (s.replay history).isReadonly
  stats history := (s.replay history).stats

namespace Solver

/-- A solver of the same name and weight of which nothing but its behaviour is known. -/
def disguised (s : Solver) : Solver := { s with algorithm := .custom ⟨.ofSolver s, []⟩ }

/-- A solver changes its weight when it is told to, and never its name. -/
theorem label_after (s : Solver) (call : SolverCall) : (s.after call).name = s.name ∧
    (s.after call).weight = match call with
      | .setWeight weight => weight
      | _ => s.weight := by
  obtain ⟨name, innerName, weight, algorithm⟩ := s
  cases call with
  | suggest x v =>
    cases algorithm with
    | keepsRejected r =>
      dsimp only [after, suggest]
      split <;> exact ⟨rfl, rfl⟩
    | _ => exact ⟨rfl, rfl⟩
  | _ => cases algorithm <;> exact ⟨rfl, rfl⟩

/-- All that a disguised solver does in a call is to take note of it. -/
theorem replay_disguised (s : Solver) (history : SolverHistory) :
    s.disguised.replay history = { s.disguised with
      weight := (s.replay history).weight, algorithm := .custom ⟨.ofSolver s, history⟩ } := by
  induction history with
  | nil => rfl
  | cons call history ih =>
    show (s.disguised.replay history).after call = _
    have hweight : (s.replay (call :: history)).weight = match call with
        | .setWeight weight => weight
        | _ => (s.replay history).weight := (label_after (s.replay history) call).2
    rw [ih, hweight]
    cases call <;> rfl

theorem name_replay (s : Solver) (history : SolverHistory) : (s.replay history).name = s.name := by
  induction history with
  | nil => rfl
  | cons call history ih => exact (label_after (s.replay history) call).1.trans ih

/-- **A solver is known by its behaviour.** Whatever was asked of it so far, it answers like the solver
that has nothing but its behaviour. -/
theorem answersAlike_disguised (s : Solver) (history : SolverHistory) :
    AnswersAlike (s.replay history) (s.disguised.replay history) := by
  rw [replay_disguised]
  refine ⟨(name_replay s history).symm, rfl, rfl, rfl, rfl, rfl, rfl, rfl, fun _ _ ↦ rfl, fun _ ↦ rfl,
    fun _ _ ↦ rfl, funext fun call ↦ ?_⟩
  cases call <;> rfl

end Solver

end LiveConstraints

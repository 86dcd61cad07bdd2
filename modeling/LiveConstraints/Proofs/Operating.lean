import LiveConstraints.Proofs.Evaluating
import LiveConstraints.Proofs.Locks
/-!
# Operating solvers

Most of what is asked of solvers lets them assign no variable that they could not assign before, and
changes no weight. A relation that such calls stay within, and that looking for defining bindings and
reporting do (`Engine.Operating`), is one that suggesting, handing values on, transplanting, attaching
stays and editing stay within.

Pinning, for a write or from outside, is another matter: it stays within a relation for which
read-only flags do not count.
-/

namespace LiveConstraints

open Engine

variable {α : Type} {R : Engine → Engine → Prop} {e : Engine} {x : VarId} {s : SolverId}

/-- A relation that looking for defining bindings and operating solvers stay within, and that does not
notice sessions, default solvers and events. -/
class Engine.Operating (R : Engine → Engine → Prop) : Prop extends Reads R where
  /-- A solver changes, but may assign no more than before and is as heavy. -/
  operate : ∀ {e : Engine} (s : SolverId) {f : Solver → Solver},
    (∀ solver, e.solvers.get? s = some solver → solver.Operates (f solver)) →
      R e { e with solvers := e.solvers.modify s f }
  /-- Sessions, default solvers and events are no matter. -/
  apart : ∀ {e e' : Engine}, e'.config = e.config → e'.objects = e.objects → e'.vars = e.vars →
    e'.constraints = e.constraints → e'.solvers = e.solvers → e'.guards = e.guards →
    e'.deferred = e.deferred → e'.pendingHooks = e.pendingHooks → e'.journal = e.journal → R e e'

/-! ### Pins -/

namespace Step

variable [Reads R]

/-- Pinning, given that read-only flags and the record of what is pinned are no matter. -/
theorem within_pinDownstream
    (hflag : ∀ {e} s h on, Within R e (modifySolver s fun solver => solver.setReadonly h on))
    (hrecord : ∀ {e} pinned, Within R e (modifyVariable x fun v => { v with pinned })) :
    Within R e (pinDownstream x) := by
  refine .get_bind ?_
  split
  · exact .pure _
  · split
    · exact .pure _
    · refine (Reads.defining x).bind fun d e₁ _ _ ↦ .get_bind ?_
      refine Within.bind (.forIn fun b _ _ e₂ _ ↦ ?_) fun _ _ _ _ ↦ hrecord _
      exact (hflag b.1 b.2 true).bind fun _ _ _ _ ↦ .pure _

theorem within_unpinDownstream
    (hflag : ∀ {e} s h on, Within R e (modifySolver s fun solver => solver.setReadonly h on))
    (hrecord : ∀ {e} pinned, Within R e (modifyVariable x fun v => { v with pinned })) :
    Within R e (unpinDownstream x) := by
  refine .get_bind ((hrecord none).bind fun _ e₁ _ _ ↦ .forIn fun b _ _ e₂ _ ↦ ?_)
  exact (hflag b.1 b.2 false).bind fun _ _ _ _ ↦ .pure _

end Step

/-- Setting the read-only flags of a field, given that the flag of a handle is no matter. -/
theorem Call.within_setReadonly [IsPreorder Engine R]
    (hflag : ∀ {e : Engine} {s : SolverId} {solver : Solver} (h : ExtVar) (on : Bool),
      e.solvers.get? s = some solver →
        R e { e with solvers := e.solvers.modify s fun _ => solver.setReadonly h on })
    (obj : ObjectId) (field : String) (on : Bool) : Within R e (setReadonly obj field on) := by
  refine .get_bind ?_
  split
  · exact .fail _
  · refine .variableAt_bind fun v _ ↦ .bind (.forIn fun b _ _ e₁ _ ↦ ?_) fun _ _ _ _ ↦ .pure _
    exact Within.bind (.of_callSolver fun _ hsolver ↦ hflag b.2 on hsolver) fun _ _ _ _ ↦ .pure _

variable [Operating R]

/-! ### Steps -/

namespace Step

theorem operating_report (event : Event) : Within R e (report event) :=
  Operating.apart rfl rfl rfl rfl rfl rfl rfl rfl rfl

theorem operating_elapsed : Within R e elapsed := Operating.apart rfl rfl rfl rfl rfl rfl rfl rfl rfl

theorem operating_reportSolve (owner : Option ConstraintId) (s : SolverId) (phase : SolvePhase) :
    Within R e (reportSolve owner s phase) := by
  refine .get_bind ?_
  dsimp only
  split
  · exact operating_report _
  · exact .pure _

theorem operating_modifySolver {f : Solver → Solver}
    (operates : ∀ solver, Solver.Operates solver (f solver)) : Within R e (modifySolver s f) :=
  Operating.operate s fun solver _ ↦ operates solver

/-- A solver changes once for each element of a list. -/
theorem operating_modifyAll {l : List α} {s : α → SolverId} {f : α → Solver → Solver}
    (operates : ∀ a solver, Solver.Operates solver (f a solver)) :
    Within R e (forIn l PUnit.unit fun a _ ↦ do
      modifySolver (s a) (f a)
      pure (.yield PUnit.unit)) :=
  .forIn fun a _ _ _ _ ↦ (operating_modifySolver (operates a)).bind fun _ _ _ _ ↦ .pure _

end Step

/-! ### Calls -/

namespace Call

theorem operating_callSolver {f : Solver → α × Solver}
    (operates : ∀ solver, Solver.Operates solver (f solver).2) : Within R e (callSolver s f) :=
  .of_callSolver fun solver hsolver ↦ Operating.operate s fun other hother ↦ by
    cases hsolver.symm.trans hother
    exact operates solver

theorem operating_askSolver {f : Solver → Except SolverError α × Solver}
    (operates : ∀ solver, Solver.Operates solver (f solver).2) : Within R e (askSolver s f) :=
  .of_askSolver fun solver hsolver ↦ Operating.operate s fun other hother ↦ by
    cases hsolver.symm.trans hother
    exact operates solver

/-- A solver changes once for each element of a list. -/
theorem operating_modifyAll {l : List α} {s : α → SolverId} {f : α → Solver → Solver}
    (operates : ∀ a solver, Solver.Operates solver (f a solver)) :
    Within R e (forIn l PUnit.unit fun a _ ↦ do
      Step.modifySolver (s a) (f a)
      pure (.yield PUnit.unit)) :=
  .forIn fun a _ _ _ _ ↦ .lift_bind (Step.operating_modifySolver (operates a))
    fun _ _ _ _ ↦ .pure _

/-! ### Handing values on -/

theorem operating_suggestTo (s : SolverId) (h : ExtVar) (v : Value) :
    Within R e (suggestTo s h v) :=
  operating_askSolver fun _ ↦ (Solver.sameFlags_lifted (Solver.sameFlags_suggest _ h v)).operates

theorem operating_updateDownstream (x : VarId) (v : Value) :
    Within R e (updateDownstream x v) := by
  have hhandles : Within R e (downstreamHandles x) :=
    .lift_bind (Reads.defining x) fun _ _ _ _ ↦ .variableAt_bind fun _ _ ↦ .pure _
  refine hhandles.bind fun handles e₁ _ _ ↦ ?_
  refine Within.bind (.forIn fun b _ _ e₂ _ ↦ ?_) fun _ _ _ _ ↦ .pure _
  exact (operating_suggestTo b.1 b.2 v).bind fun _ _ _ _ ↦ .pure _

/-! ### Selecting and rebuilding -/

theorem operating_filterCandidates (options : ConstraintOptions) (predicate : Expr)
    (solvers : List SolverId) : Within R e (filterCandidates options predicate solvers) := by
  refine (reads_inspectPredicate options.context predicate).attempt.bind fun _ _ _ _ ↦ .get_bind ?_
  refine Within.bind (.forIn fun s _ acc e₁ _ ↦ .get_bind ?_) fun _ _ _ _ ↦ .pure _
  dsimp only
  split
  · exact .pure _
  · split
    · exact .pure _
    · split
      · exact .lift_bind (Step.operating_report _) fun _ _ _ _ ↦ .pure _
      · exact .pure _

theorem operating_transplant (s : SolverId) (x : VarId) : Within R e (transplant? s x) := by
  refine .get_bind ?_
  split
  · exact .pure _
  · refine .lift_bind (Step.reads_read x) fun v e₁ _ _ ↦ ?_
    refine Within.bind (operating_askSolver fun solver ↦ ?_) fun p e₂ _ _ ↦ ?_
    · exact (solver.sameFlags_keep _ v).operates
    refine Within.bind (operating_callSolver fun solver ↦ ?_) fun _ _ _ _ ↦ .pure _
    have hrequired := Solver.sameFlags_setEnabled (s := solver) p (some .required)
    split
    · next hrun => exact (congrArg Prod.snd hrun ▸ hrequired).operates
    · next hrun =>
      exact ((congrArg Prod.snd hrun ▸ hrequired).trans (Solver.sameFlags_setEnabled p _)).operates

theorem operating_transplants (s : SolverId) (xs : List VarId) :
    Within R e (xs.filterMapM (transplant? s)) := by
  induction xs generalizing e with
  | nil => exact .pure _
  | cons x xs ih =>
    rw [List.filterMapM_cons]
    refine (operating_transplant s x).bind fun p? e₁ _ _ ↦ ?_
    cases p? with
    | none => exact ih
    | some p => exact ih.bind fun _ _ _ _ ↦ .pure _

/-! ### Stays and editing -/

theorem operating_attachStay (s : SolverId) (priority : Priority) (x : VarId) :
    Within R e (attachStay s priority x) := by
  refine .get_bind ?_
  split
  · refine Within.bind (operating_callSolver fun solver ↦ ?_) fun result e₁ _ _ ↦ ?_
    · exact (Solver.sameFlags_stay _ priority).operates
    cases result with
    | ok _ => exact .pure _
    | error err => exact .get_bind (.lift (Step.operating_report _))
  · exact .get_bind (.lift (Step.operating_report _))

theorem operating_openEdit (obj : ObjectId) (fields : List String) :
    Within R e (openEdit obj fields) := by
  refine within_openEdit (fun _ _ s h ↦ operating_callSolver fun solver ↦ ?_)
    (fun _ _ s hs ↦ operating_askSolver fun solver ↦ ?_)
    (fun _ _ _ ↦ Operating.apart rfl rfl rfl rfl rfl rfl rfl rfl rfl) obj fields
  · exact (solver.sameFlags_prepareEdit h).operates
  · exact (solver.sameFlags_beginEdit hs).operates

/-- Each solver is handed its share of a batch. -/
theorem operating_resolveAll (session : EditSession) (values : List Value) :
    Within R e (forIn session.solvers PUnit.unit fun b _ ↦ do
      askSolver b.1 fun solver => solver.resolveBatch (b.2.filterMap fun i => values[i]?)
      pure (.yield PUnit.unit)) := by
  refine .forIn fun b _ _ e₁ _ ↦ ?_
  refine Within.bind (operating_askSolver fun solver ↦ ?_) fun _ _ _ _ ↦ .pure _
  exact (solver.sameFlags_resolveBatch _).operates

theorem operating_finishEdit (session : EditSession) : Within R e (finishEdit session) := by
  refine within_finishEdit (fun _ _ s h ↦ Step.operating_modifySolver fun solver ↦ ?_)
    (fun _ _ s ↦ operating_askSolver fun solver ↦ solver.sameFlags_endEdit.operates) session
  exact (solver.sameFlags_releaseEdit h).operates

end Call

end LiveConstraints

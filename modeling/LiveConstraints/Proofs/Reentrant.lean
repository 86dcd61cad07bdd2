import LiveConstraints.Proofs.Furnishing
import LiveConstraints.Proofs.Ordinary
/-!
# Operations that lead back into the engine

Passing values on, switching constraints on, selecting solvers and rebuilding lead back into the engine.
What they do besides comes down to a few parts: the ordinary operations, as far as they are complete in
themselves, and changes to records and marks. Each kind of operation asks more of a relation than the
one before (`Engine.Passing`, `Engine.Switching`, `Engine.Selecting`); a relation that all the parts stay
within is *reentrant* (`Engine.Reentrant`). With ways back that stay within the relation
(`Reentry.Stays`), the operations do.
-/

namespace LiveConstraints

open Engine

variable {α : Type} {R : Engine → Engine → Prop} {e e' : Engine} {r : Reentry} {x : VarId}
  {id : ConstraintId}

/-! ### Parts -/

namespace Call

/-- The first part of rebuilding a constraint: it is taken apart and realized anew, and lets go of
the variables that it does not reach any more. Returns those that it reaches. -/
def reroute (id : ConstraintId) (c : Constraint) : Call (List VarId) := do
  dismantle id c
  realize id
  let reached := (← constraintAt id).vars
  forsake c.solver (c.vars.filter fun x => !reached.contains x)
  return reached

/-- The second part of rebuilding a constraint: it is switched on again, and the variables that it newly
reaches keep their values meanwhile. -/
def reengage (r : Reentry) (id : ConstraintId) (c : Constraint) (reached : List VarId) : Call Unit := do
  let transplants ← (reached.filter fun x => !c.vars.contains x).filterMapM (transplant? c.solver)
  let result ← attempt (enableTransplanted r id c.solver transplants)
  for p in transplants do
    Step.modifySolver c.solver fun s => (s.disable p).2.removePrimitive p
  ofExcept result

theorem recalculate_eq (r : Reentry) (id : ConstraintId) : recalculate r id = (do
    let c ← constraintAt id
    if !c.enabled then return ()
    let reached ← reroute id c
    reengage r id c reached) := by
  simp only [recalculate, reroute, reengage, bind_assoc, pure_bind]

/-- The first part of switching a constraint on. -/
def switch (id : ConstraintId) (c : Constraint) : Call (Except EngineError Unit) := do
  Step.tick
  attempt (activate id c)

end Call

namespace Engine

/-- A relation that the parts of passing values on stay within. -/
class Passing (R : Engine → Engine → Prop) : Prop extends Operating R where
  /-- Sessions, default solvers, events and collected hooks are no matter. -/
  beside : ∀ {e e' : Engine}, e'.config = e.config → e'.objects = e.objects → e'.vars = e.vars →
    e'.constraints = e.constraints → e'.solvers = e.solvers → e'.guards = e.guards →
    e'.deferred = e.deferred → e'.journal = e.journal → R e e'
  /-- Which constraint is current is no matter, if it is put back. -/
  current : ∀ {e e' : Engine} {c : Option (ConstraintId × SolverId)},
    R { e with guards := { e.guards with current := c } } e' →
      R e { e' with guards := { e'.guards with current := e.guards.current } }
  /-- A constraint changes, but not in what it is made of. -/
  annotate : ∀ {e : Engine} (id : ConstraintId) {f : Constraint → Constraint},
    (∀ c, SameCore c (f c)) → R e { e with constraints := e.constraints.modify id f }
  defer : ∀ {e : Engine} (work : Deferred), Step.Within R e (Step.defer work)
  recordHook : ∀ {e : Engine} (receiver : ObjectId) (field : String) (v : Value),
    Step.Within R e (Step.record (.hook receiver field v))
  apart := fun config objects vars constraints solvers guards deferred _ journal ↦
    beside config objects vars constraints solvers guards deferred journal

/-- A relation that the parts of switching constraints on and off stay within. -/
class Switching (R : Engine → Engine → Prop) : Prop extends Passing R where
  disable : ∀ {e : Engine} (id : ConstraintId), Step.Within R e (Step.disable id)
  switch : ∀ {e : Engine} {id : ConstraintId} {c : Constraint}, e.constraints.get? id = some c →
    Call.Within R e (Call.switch id c)
  deactivate : ∀ {e : Engine} (id : ConstraintId) (c : Constraint),
    Step.Within R e (Call.deactivate id c)

/-- A relation that the parts of selecting a solver stay within. -/
class Selecting (R : Engine → Engine → Prop) : Prop extends Switching R where
  abandon : ∀ {e : Engine} (id : ConstraintId), Step.Within R e (Step.abandon id)
  build : ∀ {e : Engine} (predicate : Expr) (s : SolverId) (options : ConstraintOptions)
    (mode : BuildMode), Call.Within R e (Call.build predicate s options mode)
  transplantInto : ∀ {e : Engine} {source target : ConstraintId}, source ≠ target →
    Call.Within R e (Call.transplantInto source target)

/-- A relation that the parts of operations which lead back into the engine stay within. -/
class Reentrant (R : Engine → Engine → Prop) : Prop extends Selecting R where
  reroute : ∀ {e : Engine} {id : ConstraintId} {c : Constraint}, e.constraints.get? id = some c →
    c.enabled = true → Call.Within R e (Call.reroute id c)
  unconstrain : ∀ {e : Engine} (obj : ObjectId) (field : String),
    Call.Within R e (Call.unconstrain obj field)
  /-- Objects come, and their fields and hooks change, but not what intercepts the fields. -/
  furnish : ∀ {e e' : Engine}, Furnishes e e' → R e e'
  /-- A solver is registered. -/
  register : ∀ {e : Engine} (solver : Solver), R e { e with solvers := e.solvers.insert solver }

/-- A relation that passing values on stays within, and that does not notice what variables store, nor
which of them are being suggested to, propagating or split. -/
class Storing (R : Engine → Engine → Prop) : Prop extends Passing R where
  store : ∀ {e : Engine} (x : VarId) (v : Value), Call.Within R e (Call.store x v)
  raise : ∀ {e : Engine} (suggesting storing : List VarId) (splitting : Bool),
    R e { e with guards := { e.guards with suggesting, storing, splitting } }

/-- An ordinary relation that what constraints are marked with, deferred work and the hooks that were
collected or run are no matter for is reentrant. -/
theorem Reentrant.of_ordinary [Managing R]
    (beside : ∀ {e e' : Engine}, e'.config = e.config → e'.vars = e.vars →
      e'.constraints = e.constraints → e'.solvers = e.solvers → e'.guards = e.guards →
      e'.deferred = e.deferred → e'.journal = e.journal → R e e')
    (annotate : ∀ {e : Engine} (id : ConstraintId) {f : Constraint → Constraint},
      R e { e with constraints := e.constraints.modify id f })
    (defer : ∀ {e : Engine} (work : Deferred), Step.Within R e (Step.defer work))
    (recordHook : ∀ {e : Engine} (receiver : ObjectId) (field : String) (v : Value),
      Step.Within R e (Step.record (.hook receiver field v))) : Reentrant R where
  defining := Reads.defining
  beside config _ := beside config
  current := Ordinary.current
  annotate id _ _ := annotate id
  operate := Ordinary.confine
  defer := defer
  recordHook := recordHook
  disable := Step.ordinary_disable
  abandon := Step.ordinary_abandon
  build := Call.ordinary_build
  switch {_ id c} _ := .lift_bind Step.ordinary_tick fun _ _ _ _ ↦ (Call.ordinary_activate id c).attempt
  deactivate := Call.ordinary_deactivate
  reroute {_ id c} _ _ := (Call.ordinary_dismantle id c).bind fun _ _ _ _ ↦
    (Call.ordinary_realize id).bind fun _ _ _ _ ↦ .constraintAt_bind fun _ _ ↦
      (Call.ordinary_forsake _ _).bind fun _ _ _ _ ↦ .pure _
  transplantInto {_ source target} _ := Call.ordinary_transplantInto source target
  unconstrain := Call.ordinary_unconstrain
  furnish h := by
    rw [h.same]
    exact beside rfl rfl rfl rfl rfl rfl rfl
  register := Ordinary.register

end Engine

/-! ### Ways back -/

/-- The ways back into the engine, as far as passing values on takes them, stay within a relation. -/
structure Reentry.Stays (R : Engine → Engine → Prop) (r : Reentry) : Prop where
  suggest : ∀ {e} x v, Call.Within R e (r.suggest x v .propagation false)
  spread : ∀ {e} x v old, Call.Within R e (Call.spread r x v old .propagation)
  runHooks : ∀ {e e'}, e.guards.runningHooks = false → R e e' → Call.Within R e' (Call.runHooks r)

section Passing

variable [Passing R]

namespace Step

theorem stays_modifyConstraint {f : Constraint → Constraint}
    (core : ∀ c, SameCore c (f c)) :
    Within R e (modifyConstraint id f) := Passing.annotate id core

theorem stays_initiate (d : Option Defining) : Within R e (initiate d) := by
  unfold initiate
  split
  · exact .pure _
  · refine .get_bind ?_
    split
    · exact .pure _
    · split
      · exact .pure _
      · refine Within.bind (stays_modifyConstraint ?_) fun _ _ _ _ ↦ .pure _
        exact fun _ ↦ .bookkeeping

end Step

namespace Call

theorem stays_collectHook (x : VarId) : Within R e (collectHook x) := by
  refine .lift_bind (Reads.defining x) fun d e₁ _ _ ↦ ?_
  split
  · refine .get_bind ?_
    split
    · exact fun _ ↦ Passing.beside rfl rfl rfl rfl rfl rfl rfl rfl
    · exact .pure _
    · exact .tooDeep
  · exact .pure _

theorem stays_changeConstraint {f : Constraint → Constraint}
    (core : ∀ c, SameCore c (f c)) :
    Within R e (changeConstraint id f) :=
  .constraintAt_bind fun _ _ ↦ .lift (Step.stays_modifyConstraint core)

/-! ### Passing on -/

/-- Propagating, given that spreading stays within the relation. -/
theorem stays_propagate {v old : Value} {origin : Origin} {force : Bool}
    (hspread : ∀ {e}, Within R e (spread r x v old origin)) :
    Within R e (propagate r x v old origin force) := by
  cases force with
  | true => exact hspread
  | false =>
    refine (reads_storedValue x).bind fun stored e₁ _ _ ↦ ?_
    split
    · exact .pure _
    · exact hspread

theorem stays_reconcile (hr : r.Stays R) (compare : Bool) (xs : List VarId) :
    Within R e (reconcile r compare xs) := by
  induction xs generalizing e with
  | nil => exact .pure _
  | cons x xs ih =>
    refine .get_bind ?_
    split
    · exact ih
    · refine .lift_bind (Step.reads_read x) fun new e₁ _ _ ↦ ?_
      dsimp only
      split
      · refine (operating_updateDownstream x new).bind fun _ e₂ _ _ ↦ ?_
        refine (stays_propagate (hr.spread x new _)).bind fun _ e₃ _ _ ↦ ?_
        exact ih.bind fun _ _ _ _ ↦ .pure _
      · exact ih.bind fun _ _ _ _ ↦ .pure _

end Call

end Passing

namespace Call

/-! ### Switching on and rebuilding -/

section Switching

variable [Switching R]

theorem stays_enable (hr : r.Stays R) (id : ConstraintId) (compare : Bool) :
    Within R e (enable r id compare) := by
  refine .constraintAt_bind fun c hc ↦ ?_
  split
  · exact .pure _
  · dsimp only
    split
    · exact .get_bind (.fail _)
    · refine (Switching.switch hc).bind fun result e₁ _ _ ↦ ?_
      cases result with
      | error err => exact .lift_bind (Switching.deactivate id c) fun _ _ _ _ ↦ .fail _
      | ok _ =>
        refine .lift_bind Step.operating_elapsed fun elapsedMs e₂ _ _ ↦ ?_
        refine .lift_bind (Step.operating_reportSolve _ _ _) fun _ e₃ _ _ ↦ ?_
        refine .constraintAt_bind fun c₃ _ ↦ ?_
        refine (stays_reconcile hr compare c₃.vars).bind fun changes e₄ _ _ ↦ ?_
        exact stays_changeConstraint fun _ ↦ .bookkeeping

/-- A constraint is switched on if it was on. -/
theorem stays_enableIf (hr : r.Stays R) (id : ConstraintId) (on : Bool) :
    Within R e (if on = true then enable r id false else pure ()) := by
  split
  · exact stays_enable hr id false
  · exact .pure _

theorem stays_enableTransplanted (hr : r.Stays R) (id : ConstraintId) (s : SolverId)
    (ps : List Primitive) : Within R e (enableTransplanted r id s ps) := by
  refine (stays_enable hr id false).attempt.bind fun result e₁ _ _ ↦ ?_
  cases result with
  | ok _ => exact .pure _
  | error err =>
    refine .lift_bind (Switching.disable id) fun _ e₂ _ _ ↦ ?_
    refine Within.bind (operating_modifyAll fun p _ ↦ ?_) fun _ e₃ _ _ ↦ stays_enable hr id false
    exact ((Solver.sameFlags_setEnabled p none).trans (Solver.sameFlags_setEnabled p _)).operates

theorem stays_trial (hr : r.Stays R) (id : ConstraintId) : Within R e (trial r id) :=
  (stays_enable hr id true).attempt.bind fun _ _ _ _ ↦
    .lift_bind (Switching.disable id) fun _ _ _ _ ↦ .pure _

/-- The candidate is current while it is measured. -/
theorem stays_measure (hr : r.Stays R) (id : ConstraintId) (s : SolverId) :
    Within R e (measure r id s) := by
  have htrial : ∀ e₁, Within R e₁ (trial r id) := fun _ ↦ stays_trial hr id
  exact .get_bind (.bracket (g := fun g ↦ { g with current := e.guards.current }) (htrial _)
    (unfailing_trial id _) (fun _ ↦ Passing.current) fun result e₂ _ _ ↦ .get_bind (.pure _))

/-- What follows once a constraint was realized anew. -/
theorem stays_reengage (hr : r.Stays R) (id : ConstraintId) (c : Constraint) (reached : List VarId) :
    Within R e (reengage r id c reached) := by
  refine (operating_transplants _ _).bind fun ps e₁ _ _ ↦ ?_
  refine (stays_enableTransplanted hr id c.solver ps).attempt.bind fun result e₂ _ _ ↦ ?_
  refine Within.bind (operating_modifyAll fun p _ ↦ ?_) fun _ _ _ _ ↦ .ofExcept _
  exact ((Solver.sameFlags_setEnabled p none).trans (Solver.sameFlags_removePrimitive p)).operates

/-- Rebuilding, given what becomes of the constraint before it is switched on again. -/
theorem stays_recalculate (hr : r.Stays R)
    (hreroute : ∀ {c}, e.constraints.get? id = some c → c.enabled = true →
      Within R e (reroute id c)) : Within R e (recalculate r id) := by
  rw [recalculate_eq]
  refine .constraintAt_bind fun c hc ↦ ?_
  cases henabled : c.enabled with
  | false => exact .pure _
  | true => exact (hreroute hc henabled).bind fun reached _ _ _ ↦ stays_reengage hr id c reached

end Switching

/-! ### Selection -/

section Selecting

variable [Selecting R]

theorem stays_chooseConstraint (hr : r.Stays R) (candidates : List ConstraintId)
    (keep : Option ConstraintId) (options : ConstraintOptions) :
    Within R e (chooseConstraint r candidates keep options) := by
  refine Within.bind (.forIn fun id _ _ e₁ _ ↦ ?_) fun _ e₁ _ _ ↦ ?_
  · exact .lift_bind (Switching.disable id) fun _ _ _ _ ↦ .pure _
  refine Within.bind (.forIn fun id _ acc e₂ _ ↦ .get_bind ?_) fun acc e₂ _ _ ↦ .get_bind ?_
  · dsimp only
    split
    · exact .pure _
    · refine (stays_measure hr id _).bind fun result e₃ _ _ ↦ ?_
      cases result with
      | ok m => exact .pure _
      | error err =>
        dsimp only
        split
        · exact .lift_bind (Selecting.abandon id) fun _ _ _ _ ↦ .pure _
        · exact .pure _
  · dsimp only
    split
    · exact .pure _
    · refine .get_bind ?_
      split
      · exact .pure _
      · exact .lift_bind (Step.operating_report _) fun _ _ _ _ ↦ .pure _

theorem stays_buildCandidates (options : ConstraintOptions) (predicate : Expr)
    (solvers : List SolverId) : Within R e (buildCandidates options predicate solvers) := by
  refine Within.bind (.forIn fun s _ acc e₁ _ ↦ ?_) fun _ _ _ _ ↦ .pure _
  refine (Selecting.build predicate s options .always).attempt.bind fun result _ _ _ ↦ ?_
  cases result <;> exact .pure _

/-- Abandoning some of several constraints. -/
theorem stays_abandonSome (ids : List ConstraintId) (q : ConstraintId → Bool) :
    Within R e (forIn ids PUnit.unit fun id _ ↦
      if q id then do
        Step.abandon id
        pure (.yield PUnit.unit)
      else pure (.yield PUnit.unit)) := by
  refine .forIn fun id _ _ e₁ _ ↦ ?_
  split
  · exact .lift_bind (Selecting.abandon id) fun _ _ _ _ ↦ .pure _
  · exact .pure _

theorem stays_reevaluate (hr : r.Stays R) (id : ConstraintId) :
    Within R e (reevaluate r id) := by
  refine .constraintAt_bind fun c _ ↦ .get_bind ?_
  refine .lift_bind (Step.operating_report _) fun _ e₁ _ _ ↦ ?_
  refine (operating_filterCandidates _ _ _).bind fun solvers e₂ _ _ ↦ ?_
  dsimp only
  split
  · exact .pure _
  refine (stays_buildCandidates _ _ _).bind fun built e₃ _ _ ↦ ?_
  split
  · exact .pure _
  refine (stays_chooseConstraint hr (built.1 ++ [id]) (some id) c.options).bind
    fun chosen e₄ _ _ ↦ ?_
  obtain ⟨winner, _⟩ := chosen
  refine (stays_abandonSome built.1 fun other ↦ other != id && some other != winner).bind
    fun _ e₅ _ _ ↦ ?_
  cases winner with
  | none => exact stays_enableIf hr id c.enabled
  | some w =>
    dsimp only
    split
    · next hne =>
      exact (Selecting.transplantInto (bne_iff_ne.1 hne)).bind fun _ e₆ _ _ ↦
        stays_enableIf hr id c.enabled
    · exact stays_enableIf hr id c.enabled

theorem stays_contest (hr : r.Stays R) (options : ConstraintOptions)
    (candidates : List ConstraintId) : Within R e (contest r options candidates) := by
  have habandon : ∀ (e₁ : Engine) (chosen : Option ConstraintId × List EngineError),
      Within R e₁ (do
        for other in candidates do
          if some other != chosen.1 then Step.abandon other
        return (chosen.1, chosen.2) : Call (Option ConstraintId × List EngineError)) :=
    fun e₁ chosen ↦ (stays_abandonSome candidates fun other ↦ some other != chosen.1).bind
      fun _ _ _ _ ↦ .pure _
  unfold contest
  dsimp only
  split
  · exact (stays_chooseConstraint hr candidates none options).bind fun chosen e₁ _ _ ↦
      habandon e₁ chosen
  · exact habandon e (candidates.head?, [])

theorem stays_launch (hr : r.Stays R) (options : ConstraintOptions) (id : ConstraintId) :
    Within R e (launch r options id) := by
  unfold launch
  split
  · exact .pure _
  refine Within.bind (stays_changeConstraint fun _ ↦ .bookkeeping) fun _ e₁ _ _ ↦ ?_
  refine (stays_enable hr id false).attempt.bind fun enabled e₂ _ _ ↦ ?_
  refine .lift_bind (Step.stays_modifyConstraint fun _ ↦ .bookkeeping) fun _ e₃ _ _ ↦ ?_
  cases enabled with
  | ok _ => exact .pure _
  | error err => exact .lift_bind (Selecting.abandon id) fun _ _ _ _ ↦ .pure _

theorem stays_maintain (hr : r.Stays R) (predicate : Expr) (options : ConstraintOptions) :
    Within R e (maintain r predicate options) := by
  have hdefer : ∀ (e₁ : Engine) (errors : List EngineError), Within R e₁ (do
      deferFailures options errors
      return none : Call (Option ConstraintId)) := fun e₁ errors ↦
    .lift_bind (Passing.defer _) fun _ _ _ _ ↦ .pure _
  refine .get_bind ((operating_filterCandidates _ _ _).bind fun solvers e₁ _ _ ↦ ?_)
  refine (stays_buildCandidates _ _ _).bind fun built e₂ _ _ ↦ ?_
  refine (stays_contest hr options built.1).bind fun chosen e₃ _ _ ↦ ?_
  obtain ⟨_ | id, unmeasured⟩ := chosen
  · exact hdefer e₃ _
  · refine (stays_launch hr options id).bind fun enabled e₄ _ _ ↦ ?_
    cases enabled with
    | ok _ => exact .pure _
    | error err => exact hdefer e₄ _

end Selecting

end Call

end LiveConstraints

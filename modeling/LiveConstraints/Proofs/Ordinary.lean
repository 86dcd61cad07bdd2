import LiveConstraints.Proofs.Operating
/-!
# Ordinary operations

Most operations of an engine intercept, build, switch, solve, measure and release. What they do
comes down to a few changes: to what calls in progress do not look at, to a variable but not to what
it stores, to a constraint but neither to its mark nor to what it is set to, and to a solver but not so
that it may assign a variable that it could not assign before. A relation that these changes stay
within is *ordinary* (`Engine.Ordinary`), and every ordinary operation stays within every ordinary
relation. Operations that introduce, switch or drop a whole constraint ask for a little more
(`Engine.Managing`).

Operations that store a value, pin variables or lead back into the engine are treated where a
relation has something to say about them.
-/

namespace LiveConstraints

open Engine

variable {α β : Type} {R : Engine → Engine → Prop} {e e' : Engine} {x : VarId} {id : ConstraintId}
  {s : SolverId}

/-- What a constraint is set to: its solver, whether it is on, and its options. -/
def Constraint.setting (c : Constraint) : SolverId × Bool × ConstraintOptions :=
  (c.solver, c.enabled, c.options)

namespace Engine

theorem isSome_get?_modify {f : Solver → Solver} {t : SolverId}
    (h : (e.solvers.get? t).isSome = true) : ((e.solvers.modify s f).get? t).isSome = true := by
  rw [Arena.get?_modify]
  split
  · rw [Option.isSome_map, h]
  · exact h

/-- A binding in a registered solver, which handed the handle out if there is one. -/
def Grants (e : Engine) (b : SolverId × Option ExtVar) : Prop :=
  ∃ solver, e.solvers.get? b.1 = some solver ∧ ∀ h, b.2 = some h → solver.HandedOut h

theorem Grants.isSome {b : SolverId × Option ExtVar} (h : e.Grants b) :
    (e.solvers.get? b.1).isSome = true := by
  obtain ⟨solver, hsolver, -⟩ := h
  exact Option.isSome_of_mem hsolver

/-- A solver that was asked to represent a variable grants what it answered. -/
theorem grants_declare {solver : Solver} (hsolver : e.solvers.get? s = some solver) (v : Value)
    (label : String) :
    Grants { e with solvers := e.solvers.modify s fun _ ↦ (solver.declare v label).2 }
      (s, (solver.declare v label).1) := by
  refine ⟨(solver.declare v label).2, ?_, fun h hh ↦ Solver.handedOut_declare hh⟩
  dsimp only
  rw [Arena.get?_modify_self, hsolver, Option.map_some]

/-- A variable changes, but neither in what it stores, nor in which handles are pinned, nor in what is
remembered of its defining binding and its closure; and what it is bound to newly is granted. -/
structure Retouches (e : Engine) (v w : Variable) : Prop where
  shadow : w.shadow = v.shadow
  pinned : w.pinned = v.pinned
  memo : w.definingMemo = v.definingMemo
  closureMemo : w.closureMemo = v.closureMemo
  bindings : ∀ b ∈ w.bindings.entries, b ∈ v.bindings.entries ∨ e.Grants b

/-- A variable changes as well, but not in its bindings. -/
theorem Retouches.of_bindings {v w : Variable} (shadow : w.shadow = v.shadow)
    (pinned : w.pinned = v.pinned) (memo : w.definingMemo = v.definingMemo)
    (closureMemo : w.closureMemo = v.closureMemo) (bindings : w.bindings = v.bindings) :
    Retouches e v w :=
  ⟨shadow, pinned, memo, closureMemo, fun _ hb ↦ .inl (bindings ▸ hb)⟩

/-- A variable is bound to what a solver grants. -/
theorem Retouches.bind {v : Variable} {h : Option ExtVar} (hgrants : e.Grants (s, h)) :
    Retouches e v { v with bindings := v.bindings.insert s h } := by
  refine ⟨rfl, rfl, rfl, rfl, fun b hb ↦ ?_⟩
  obtain rfl | hmem := SortedMap.mem_insertIn hb
  · exact .inr hgrants
  · exact .inl hmem

/-- A variable that nothing was done to: no handle is pinned, nothing is remembered, and no solver was
asked to represent it. -/
structure Blank (v : Variable) : Prop where
  pinned : v.pinned = none
  memo : v.definingMemo = none
  closureMemo : v.closureMemo = none
  bindings : v.bindings.entries = []

/-- A relation that ordinary changes stay within. -/
class Ordinary (R : Engine → Engine → Prop) : Prop extends IsPreorder Engine R where
  /-- Objects, sessions, default solvers and events are no matter, and the generation may tick. -/
  aside : ∀ {e e' : Engine}, e'.config = e.config → e'.vars = e.vars →
    e'.constraints = e.constraints →
    e'.solvers = e.solvers → e'.guards = { e.guards with generation := e'.guards.generation } →
    e.guards.generation ≤ e'.guards.generation →
    e'.deferred = e.deferred → e'.pendingHooks = e.pendingHooks → e'.journal = e.journal → R e e'
  /-- What is remembered of defining bindings is no matter. -/
  finds : ∀ {e e' : Engine}, Finds e e' → R e e'
  /-- Which constraint is current is no matter, if it is put back. -/
  current : ∀ {e e' : Engine} {c : Option (ConstraintId × SolverId)},
    R { e with guards := { e.guards with current := c } } e' →
      R e { e' with guards := { e'.guards with current := e.guards.current } }
  /-- A variable changes, but not in what it stores. -/
  retouch : ∀ {e : Engine} (x : VarId) {f : Variable → Variable}, (∀ v, Retouches e v (f v)) →
    R e { e with vars := e.vars.modify x f }
  /-- A new variable. -/
  allocate : ∀ {e : Engine} {v : Variable}, Blank v → R e { e with vars := e.vars.insert v }
  /-- A variable is released. -/
  release : ∀ {e : Engine} (x : VarId), R e { e with vars := e.vars.remove x }
  /-- A constraint changes, but not in what it is set to, and is not marked by it. -/
  annotate : ∀ {e : Engine} (id : ConstraintId) {f : Constraint → Constraint},
    (∀ c, (f c).setting = c.setting) → (∀ c, (f c).initiating = true → c.initiating = true) →
      R e { e with constraints := e.constraints.modify id f }
  /-- A solver changes, but may assign no more than before and is as heavy. -/
  confine : ∀ {e : Engine} (s : SolverId) {f : Solver → Solver},
    (∀ solver, e.solvers.get? s = some solver → solver.Operates (f solver)) →
      R e { e with solvers := e.solvers.modify s f }
  /-- A solver is registered. -/
  register : ∀ {e : Engine} (solver : Solver), R e { e with solvers := e.solvers.insert solver }

/-- An ordinary relation that introducing, switching and dropping constraints stays within as well. -/
class Managing (R : Engine → Engine → Prop) : Prop extends Ordinary R where
  /-- A constraint changes, and is not marked by it. -/
  adjust : ∀ {e : Engine} (id : ConstraintId) {f : Constraint → Constraint},
    (∀ c, (f c).initiating = true → c.initiating = true) →
      R e { e with constraints := e.constraints.modify id f }
  /-- A new constraint, not marked. -/
  introduce : ∀ {e : Engine} {c : Constraint}, c.initiating = false →
    R e { e with constraints := e.constraints.insert c }
  /-- A constraint is dropped. -/
  retire : ∀ {e : Engine} (id : ConstraintId),
    R e { e with constraints := e.constraints.remove id }
  annotate := fun id _ _ unmarked ↦ adjust id unmarked

/-- A relation that making solvers heavier and pinning the variables of a closure for a write stays
within. -/
class Pinning (R : Engine → Engine → Prop) : Prop where
  closure : ∀ {e : Engine} (x : VarId), Step.Within R e (Step.closure x)
  weigh : ∀ {e : Engine} (s : SolverId) {f : Solver → Solver},
    (∀ solver, e.solvers.get? s = some solver → ∃ weight, f solver = solver.setWeight weight) →
      R e { e with solvers := e.solvers.modify s f }
  pin : ∀ {e : Engine} (x : VarId), Step.Within R e (Step.pinDownstream x)
  unpin : ∀ {e : Engine} (x : VarId), Step.Within R e (Step.unpinDownstream x)
  suggesting : ∀ {e e' : Engine} {x : VarId}, x ∉ e.guards.suggesting →
    R { e with guards := { e.guards with suggesting := e.guards.suggesting ++ [x] } } e' →
      R e { e' with guards := { e'.guards with suggesting := e'.guards.suggesting.erase x } }

end Engine

instance (priority := low) [Ordinary R] : Operating R where
  defining x := (Step.finds_defining x).mono fun _ ↦ Ordinary.finds
  operate := Ordinary.confine
  apart {e e'} config _ vars constraints solvers guards :=
    Ordinary.aside config vars constraints solvers (by rw [guards]) (by rw [guards])

variable [Ordinary R]

/-! ### Steps -/

namespace Step

theorem ordinary_tick : Within R e tick :=
  Ordinary.aside rfl rfl rfl rfl rfl (Nat.le_succ _) rfl rfl rfl

theorem ordinary_modifyVariable {f : Variable → Variable} (store : ∀ v, Retouches e v (f v)) :
    Within R e (modifyVariable x f) := Ordinary.retouch x store

/-! ### Releasing -/

theorem ordinary_restoreField (x : VarId) (obj : ObjectId) (name : String) (v : Value) :
    Within R e (restoreField x obj name v) := by
  refine .get_bind ?_
  split
  · exact Ordinary.aside rfl rfl rfl rfl rfl (Nat.le_refl _) rfl rfl rfl
  · exact .pure _

theorem ordinary_releaseWithin (n : Nat) (x : VarId) : Within R e (releaseWithin n x) := by
  induction n generalizing e x with
  | zero => exact .pure _
  | succ n ih =>
    unfold releaseWithin
    refine .get_bind ?_
    split
    · exact .pure _
    · split
      · refine (reads_read x).bind fun value e₁ _ _ ↦ ?_
        refine .modify_bind (Ordinary.release x) ?_
        split
        · exact (ordinary_restoreField ..).bind fun _ _ _ _ ↦ ordinary_tick
        · refine Within.bind (ordinary_modifyVariable ?_) fun _ _ _ _ ↦ ?_
          · exact fun _ ↦ .of_bindings rfl rfl rfl rfl rfl
          exact (ih _).bind fun _ _ _ _ ↦ ordinary_tick
      · exact .pure _

theorem ordinary_detachUnused (x : VarId) : Within R e (detachUnused x) := by
  unfold detachUnused
  refine .get_bind ?_
  split
  · exact .pure _
  · refine Within.bind (.forIn fun b _ _ e₁ _ ↦ ?_) fun _ e₁ _ _ ↦
      .get_bind (ordinary_releaseWithin _ x)
    refine Within.bind (ordinary_modifyVariable ?_) fun _ e₂ _ _ ↦ ?_
    · exact fun _ ↦ ⟨rfl, rfl, rfl, rfl, fun _ hmem ↦ .inl (List.mem_filter.1 hmem).1⟩
    split
    · next h _ =>
      exact (operating_modifySolver fun _ ↦ Solver.operates_removeVariable h).bind fun _ _ _ _ ↦ .pure _
    · exact .pure _

theorem ordinary_leave (x : VarId) (id : ConstraintId) : Within R e (leave x id) :=
  ordinary_modifyVariable fun _ ↦ .of_bindings rfl rfl rfl rfl rfl

theorem ordinary_dropWithin (n : Nat) (x : VarId) : Within R e (dropWithin n x) := by
  induction n generalizing e x with
  | zero => exact .pure _
  | succ n ih =>
    unfold dropWithin
    refine .get_bind ?_
    split
    · exact .pure _
    · refine .modify_bind (Ordinary.release x) ?_
      refine Within.bind (.forIn fun id _ _ _ _ ↦ ?_) fun _ _ _ _ ↦ ?_
      · refine Within.bind (Ordinary.annotate id ?_ ?_) fun _ _ _ _ ↦ .pure _
        · exact fun _ ↦ rfl
        · exact fun _ h ↦ h
      · refine Within.bind (.forIn fun part _ _ _ _ ↦ (ih part).bind fun _ _ _ _ ↦ .pure _)
          fun _ _ _ _ ↦ ?_
        split
        · exact ordinary_modifyVariable fun _ ↦ .of_bindings rfl rfl rfl rfl rfl
        · exact .pure _

end Step

/-! ### Calls -/

namespace Call

theorem ordinary_annotate {f : Constraint → Constraint}
    (same : ∀ c, (f c).setting = c.setting)
    (unmarked : ∀ c, (f c).initiating = true → c.initiating = true) :
    Within R e (changeConstraint id f) :=
  .constraintAt_bind fun _ _ ↦ .lift (Ordinary.annotate id same unmarked)

theorem ordinary_setSlot (obj : ObjectId) (field : String) (slot : FieldSlot) :
    Within R e (setSlot obj field slot) :=
  .objectAt_bind fun _ _ _ ↦ Ordinary.aside rfl rfl rfl rfl rfl (Nat.le_refl _) rfl rfl rfl

/-! ### Interception -/

theorem ordinary_allocate {v : Variable} (blank : Blank v) : Within R e (allocate v) := by
  refine .get_bind (.modify_bind (Ordinary.allocate blank) ?_)
  exact .lift_bind Step.ordinary_tick fun _ _ _ _ ↦ .pure _

theorem ordinary_fieldVariable (obj : ObjectId) (name : String) (parent : Option VarId) :
    Within R e (fieldVariable obj name parent) := by
  refine .slotAt_bind fun slot _ ↦ ?_
  cases slot with
  | intercepted x =>
    refine .lift_bind (Step.ordinary_modifyVariable fun v ↦ ?_) fun _ _ _ _ ↦ .pure _
    split <;> exact .of_bindings rfl rfl rfl rfl rfl
  | plain shadow =>
    exact (ordinary_allocate ⟨rfl, rfl, rfl, rfl⟩).bind fun _ _ _ _ ↦
      (ordinary_setSlot _ _ _).bind fun _ _ _ _ ↦ .pure _

theorem ordinary_partVariable (parent : VarId) (name : String) :
    Within R e (partVariable parent name) := by
  refine .variableAt_bind fun p _ ↦ ?_
  split
  · exact .pure _
  · refine .lift_bind (Step.reads_read parent) fun v e₁ _ _ ↦ ?_
    split
    · exact .fail _
    · refine (ordinary_allocate ⟨rfl, rfl, rfl, rfl⟩).bind fun _ _ _ _ ↦ ?_
      exact .lift_bind (Step.ordinary_modifyVariable fun _ ↦ .of_bindings rfl rfl rfl rfl rfl)
        fun _ _ _ _ ↦ .pure _

theorem ordinary_bind (x : VarId) (s : SolverId) : Within R e (bind x s) := by
  refine .variableAt_bind fun v _ ↦ ?_
  split
  · refine .lift_bind (Step.reads_read x) fun value e₁ _ _ ↦ .get_bind ?_
    refine .callSolver_bind (fun solver hsolver ↦ ?_) fun solver hsolver ↦ ?_
    · exact Ordinary.confine s fun other hother ↦ by
        cases hsolver.symm.trans hother
        exact Solver.operates_declare _ _
    refine .lift_bind (Step.ordinary_modifyVariable fun _ ↦ .bind ?_)
      fun _ _ _ _ ↦ .lift Step.ordinary_tick
    exact grants_declare hsolver value _
  · exact .pure _

theorem ordinary_attach (id : ConstraintId) (s : SolverId) (x : VarId) :
    Within R e (attach id s x) := by
  refine .lift_bind (Step.ordinary_modifyVariable fun _ ↦ .of_bindings rfl rfl rfl rfl rfl) fun _ e₁ _ _ ↦ ?_
  refine Within.bind (ordinary_annotate (fun c ↦ ?_) fun c h ↦ ?_) fun _ e₂ _ _ ↦ ordinary_bind x s
  · split <;> rfl
  · split at h <;> exact h

theorem ordinary_touchField (id : ConstraintId) (s : SolverId) (obj : ObjectId) (name : String)
    (parent : Option VarId) : Within R e (touchField id s obj name parent) :=
  (ordinary_fieldVariable obj name parent).bind fun x _ _ _ ↦
    (ordinary_attach id s x).bind fun _ _ _ _ ↦ .pure _

theorem ordinary_touchPart (id : ConstraintId) (s : SolverId) (parent : VarId) (name : String) :
    Within R e (touchPart id s parent name) :=
  (ordinary_partVariable parent name).bind fun x _ _ _ ↦
    (ordinary_attach id s x).bind fun _ _ _ _ ↦ .pure _

/-! ### Evaluation -/

theorem ordinary_pin (scope : Scope) (x : VarId) : Within R e (pin scope x) := by
  refine .get_bind ?_
  split
  · exact operating_callSolver fun _ ↦ Solver.operates_setReadonly _
  · exact .pure _

instance (scope : Scope) : Evaluates scope R where
  touchField := ordinary_touchField scope.constraint scope.solver
  touchPart := ordinary_touchPart scope.constraint scope.solver
  pin := ordinary_pin scope
  compile t := operating_callSolver fun solver ↦ (solver.sameFlags_compile t).operates

/-! ### Building -/

theorem ordinary_realize (id : ConstraintId) : Within R e (realize id) := by
  refine .constraintAt_bind fun c _ ↦ .get_bind ?_
  have hcompile : ∀ e₁, Within R e₁
      (attempt (evaluatePredicate ⟨id, c.solver, c.options⟩ c.predicate)) :=
    fun _ ↦ (evaluates_evaluatePredicate _).attempt
  refine .bracket (g := fun g ↦ { g with current := e.guards.current }) (hcompile _)
    (attempt_ne_failed _ _) (fun e₁ h₁ ↦ ?_) fun result e₁ _ _ ↦ .get_bind ?_
  · exact Ordinary.current h₁
  · refine (Within.ofExcept result).bind fun compiled e₂ _ _ ↦ ?_
    cases compiled with
    | primitive p => exact ordinary_annotate (fun _ ↦ rfl) fun _ h ↦ h
    | native b =>
      cases b with
      | true =>
        dsimp only
        split
        · exact ordinary_annotate (fun _ ↦ rfl) fun _ h ↦ h
        · exact .fail _
      | false => exact .fail _
    | value v =>
      dsimp only
      split
      · exact .pure _
      · exact .fail _

/-! ### Switching and rebuilding -/

theorem ordinary_removeAll {ps : List Primitive} {s : SolverId} :
    Within R e (forIn ps PUnit.unit fun p _ ↦ do
      Step.modifySolver s fun solver => solver.removePrimitive p
      pure (.yield PUnit.unit)) :=
  operating_modifyAll fun p _ ↦ (Solver.sameFlags_removePrimitive p).operates

/-- Temporary primitives become preferences. -/
theorem ordinary_weaken {ps : List Primitive} {s : SolverId} :
    Within R e (forIn ps PUnit.unit fun p _ ↦ do
      Step.modifySolver s fun solver => ((solver.disable p).2.enable p .strong).2
      pure (.yield PUnit.unit)) :=
  operating_modifyAll fun p _ ↦
    ((Solver.sameFlags_setEnabled p none).trans (Solver.sameFlags_setEnabled p _)).operates

/-- Temporary primitives are withdrawn. -/
theorem ordinary_withdraw {ps : List Primitive} {s : SolverId} :
    Within R e (forIn ps PUnit.unit fun p _ ↦ do
      Step.modifySolver s fun solver => (solver.disable p).2.removePrimitive p
      pure (.yield PUnit.unit)) :=
  operating_modifyAll fun p _ ↦
    ((Solver.sameFlags_setEnabled p none).trans (Solver.sameFlags_removePrimitive p)).operates

theorem ordinary_forsake (s : SolverId) (xs : List VarId) : Within R e (forsake s xs) := by
  unfold forsake
  refine Within.bind (.forIn fun x _ _ e₁ _ ↦ .get_bind ?_) fun _ _ _ _ ↦ .pure _
  have hdetach : ∀ e₂, Within R e₂ (do
      Step.detachUnused x
      pure (.yield PUnit.unit) : Call (ForInStep PUnit)) := fun e₂ ↦
    .lift_bind (Step.ordinary_detachUnused x) fun _ _ _ _ ↦ .pure _
  split
  · refine Within.bind (operating_callSolver fun solver ↦ ?_) fun _ e₂ _ _ ↦ hdetach e₂
    exact (Solver.sameFlags_removeStay _).operates
  · exact hdetach e₁

/-- The variables of a list go over one after another. -/
theorem ordinary_joinAll (source target : ConstraintId) (xs : List VarId) :
    Within R e (forIn xs PUnit.unit fun x _ ↦ do
      Step.modifyVariable x fun v =>
        { v with constraints := SortedSet.add (v.constraints.erase source) target }
      pure (.yield PUnit.unit)) :=
  .forIn fun _ _ _ _ _ ↦ .lift_bind
    (Step.ordinary_modifyVariable fun _ ↦ .of_bindings rfl rfl rfl rfl rfl) fun _ _ _ _ ↦ .pure _

/-- The variables that the winner does not touch leave one after another. -/
theorem ordinary_leaveSome (xs ys : List VarId) (id : ConstraintId) :
    Within R e (forIn xs PUnit.unit fun x _ ↦
      if !ys.contains x then do
        Step.leave x id
        pure (.yield PUnit.unit)
      else pure (.yield PUnit.unit)) := by
  refine .forIn fun x _ _ e₁ _ ↦ ?_
  split
  · exact .lift_bind (Step.ordinary_leave x id) fun _ _ _ _ ↦ .pure _
  · exact .pure _

/-! ### Selection -/

/-! ### Suggesting and storing -/

/-! ### Requests without ways back -/

theorem ordinary_createObject (fields : List (String × Value)) :
    Within R e (createObject fields) :=
  .get_bind (.modify_bind (Ordinary.aside rfl rfl rfl rfl rfl (Nat.le_refl _) rfl rfl rfl) (.pure _))

theorem ordinary_slotOrCreate (obj : ObjectId) (field : String) :
    Within R e (slotOrCreate obj field) := by
  refine .objectAt_bind fun o _ ↦ ?_
  split
  · exact .pure _
  · exact (ordinary_setSlot _ _ _).bind fun _ _ _ _ ↦ .pure _

theorem ordinary_onWrite (obj : ObjectId) (field : String) (hook : Hook) :
    Within R e (onWrite obj field hook) :=
  .objectAt_bind fun _ _ _ ↦ Ordinary.aside rfl rfl rfl rfl rfl (Nat.le_refl _) rfl rfl rfl

theorem ordinary_unconstrainWithin (n : Nat) (obj : ObjectId) (field : String) :
    Within R e (unconstrainWithin n obj field) := by
  induction n generalizing e obj field with
  | zero => exact .pure _
  | succ n ih =>
    unfold unconstrainWithin
    refine .slotAt_bind fun slot _ ↦ ?_
    cases slot with
    | plain v => exact .pure _
    | intercepted x =>
      refine .lift_bind (Step.reads_read x) fun v e₁ _ _ ↦ ?_
      refine (ordinary_setSlot _ _ _).bind fun _ e₂ _ _ ↦ ?_
      refine .lift_bind (Step.Within.get_bind (Step.ordinary_dropWithin _ x)) fun _ e₃ _ _ ↦ ?_
      refine .lift_bind Step.ordinary_tick fun _ e₄ _ _ ↦ ?_
      split
      · refine (within_fieldNames _).bind fun names e₅ _ _ ↦ ?_
        refine Within.bind (.forIn fun name _ _ e₆ _ ↦ .get_bind ?_) fun _ _ _ _ ↦ .pure _
        split
        · exact (ih _ name).bind fun _ _ _ _ ↦ .pure _
        · exact .pure _
      · exact .pure _

theorem ordinary_unconstrain (obj : ObjectId) (field : String) :
    Within R e (unconstrain obj field) := .get_bind (ordinary_unconstrainWithin _ obj field)

theorem ordinary_unconstrainAll (obj : ObjectId) : Within R e (unconstrainAll obj) := by
  refine (within_fieldNames obj).bind fun names e₁ _ _ ↦ ?_
  refine Within.bind (.forIn fun name _ _ e₂ _ ↦ .get_bind ?_) fun _ _ _ _ ↦ .pure _
  split
  · exact (ordinary_unconstrain obj name).bind fun _ _ _ _ ↦ .pure _
  · exact .pure _

end Call

/-! ### Operations on whole constraints -/

section Managing

omit [Ordinary R]

variable [Managing R]

namespace Step

theorem ordinary_modifyConstraint {f : Constraint → Constraint}
    (unmarked : ∀ c, (f c).initiating = true → c.initiating = true) :
    Within R e (modifyConstraint id f) := Managing.adjust id unmarked

theorem ordinary_disable (id : ConstraintId) : Within R e (disable id) := by
  refine .get_bind ?_
  split
  · exact .pure _
  · split
    · refine Within.bind (operating_modifyAll fun p solver ↦ ?_) fun _ _ _ _ ↦ ?_
      · exact (Solver.sameFlags_setEnabled p none).operates
      refine Within.bind (ordinary_modifyConstraint ?_) fun _ _ _ _ ↦ ordinary_tick
      exact fun _ h ↦ h
    · exact .pure _

theorem ordinary_abandon (id : ConstraintId) : Within R e (abandon id) := by
  refine (ordinary_disable id).bind fun _ e₁ _ _ ↦ .get_bind ?_
  split
  · exact .pure _
  · refine .modify_bind (Managing.retire id) ?_
    refine Within.bind (operating_modifyAll fun p solver ↦ ?_) fun _ _ _ _ ↦ ?_
    · exact (Solver.sameFlags_removePrimitive p).operates
    refine Within.bind (.forIn fun x _ _ _ _ ↦ ?_) fun _ _ _ _ ↦ ordinary_tick
    exact (ordinary_leave x id).bind fun _ _ _ _ ↦
      (ordinary_detachUnused x).bind fun _ _ _ _ ↦ .pure _

end Step

namespace Call

theorem ordinary_changeConstraint {f : Constraint → Constraint}
    (unmarked : ∀ c, (f c).initiating = true → c.initiating = true) :
    Within R e (changeConstraint id f) :=
  .constraintAt_bind fun _ _ ↦ .lift (Step.ordinary_modifyConstraint unmarked)

theorem ordinary_build (predicate : Expr) (s : SolverId) (options : ConstraintOptions)
    (mode : BuildMode) : Within R e (build predicate s options mode) := by
  refine .solverAt_bind fun _ _ ↦ .get_bind ?_
  refine .modify_bind (Managing.introduce rfl) ?_
  refine (ordinary_realize _).attempt.bind fun result e₁ _ _ ↦ ?_
  cases result with
  | ok _ => exact .pure _
  | error err => exact .lift_bind (Step.ordinary_abandon _) fun _ _ _ _ ↦ .fail _

theorem ordinary_activate (id : ConstraintId) (c : Constraint) : Within R e (activate id c) := by
  unfold activate
  refine Within.bind (.forIn fun p _ _ e₁ _ ↦ ?_) fun _ e₁ _ _ ↦ ?_
  · refine Within.bind (operating_askSolver fun solver ↦ ?_) fun _ _ _ _ ↦ .pure _
    exact (Solver.sameFlags_setEnabled p _).operates
  · refine Within.bind (ordinary_changeConstraint ?_) fun _ e₂ _ _ ↦ ?_
    · exact fun _ h ↦ h
    · split
      · exact operating_askSolver fun solver ↦ solver.sameFlags_solve.operates
      · exact .pure _

theorem ordinary_deactivate (id : ConstraintId) (c : Constraint) :
    Step.Within R e (deactivate id c) := by
  refine Step.Within.bind (Step.operating_modifyAll fun p solver ↦ ?_) fun _ _ _ _ ↦ ?_
  · exact (Solver.sameFlags_setEnabled p none).operates
  refine Step.Within.bind (Step.ordinary_modifyConstraint ?_) fun _ _ _ _ ↦ Step.ordinary_tick
  exact fun _ h ↦ h

theorem ordinary_dismantle (id : ConstraintId) (c : Constraint) :
    Within R e (dismantle id c) := by
  refine .lift_bind (Step.ordinary_disable id) fun _ e₁ _ _ ↦ ?_
  refine Within.bind (ordinary_changeConstraint ?_) fun _ e₂ _ _ ↦ ?_
  · exact fun _ h ↦ h
  refine ordinary_removeAll.bind fun _ e₃ _ _ ↦ ?_
  refine Within.bind (.forIn fun x _ _ e₄ _ ↦ ?_) fun _ e₄ _ _ ↦ ordinary_changeConstraint ?_
  · exact .lift_bind (Step.ordinary_leave x id) fun _ _ _ _ ↦ .pure _
  · exact fun _ h ↦ h

theorem ordinary_supplant (source target : ConstraintId) (old : Constraint) :
    Within R e (supplant source target old) := by
  unfold supplant
  refine ordinary_removeAll.bind fun _ e₁ _ _ ↦ .constraintAt_bind fun winner _ ↦ ?_
  refine .modify_bind (Managing.retire source) ?_
  refine (ordinary_joinAll source target winner.vars).bind fun _ e₂ _ _ ↦ ?_
  refine (ordinary_leaveSome old.vars winner.vars target).bind fun _ e₃ _ _ ↦ ?_
  refine Within.bind (ordinary_changeConstraint ?_) fun _ e₄ _ _ ↦ ?_
  · exact fun _ h ↦ h
  refine .lift_bind Step.ordinary_tick fun _ e₅ _ _ ↦ ?_
  refine Within.bind (.forIn fun x _ _ e₆ _ ↦ ?_) fun _ e₆ _ _ ↦ ?_
  · exact .lift_bind (Step.ordinary_detachUnused x) fun _ _ _ _ ↦ .pure _
  · exact .get_bind (.lift (Step.operating_report _))

theorem ordinary_transplantInto (source target : ConstraintId) :
    Within R e (transplantInto source target) :=
  .constraintAt_bind fun _ _ ↦ ordinary_supplant _ _ _

theorem ordinary_buildCandidates (options : ConstraintOptions) (predicate : Expr)
    (solvers : List SolverId) : Within R e (buildCandidates options predicate solvers) := by
  refine Within.bind (.forIn fun s _ acc e₁ _ ↦ ?_) fun _ _ _ _ ↦ .pure _
  refine (ordinary_build predicate s options .always).attempt.bind fun result _ _ _ ↦ ?_
  cases result <;> exact .pure _

/-- Abandoning some of several constraints. -/
theorem ordinary_abandonSome (ids : List ConstraintId) (q : ConstraintId → Bool) :
    Within R e (forIn ids PUnit.unit fun id _ ↦
      if q id then do
        Step.abandon id
        pure (.yield PUnit.unit)
      else pure (.yield PUnit.unit)) := by
  refine .forIn fun id _ _ e₁ _ ↦ ?_
  split
  · exact .lift_bind (Step.ordinary_abandon id) fun _ _ _ _ ↦ .pure _
  · exact .pure _

end Call

end Managing

/-! ### Weights and pins -/

variable [Pinning R]

omit [Ordinary R] in
theorem Step.ordinary_weigh (s : SolverId) (weight : Solver → Float) :
    Step.Within R e (modifySolver s fun solver => solver.setWeight (weight solver)) :=
  Pinning.weigh s fun solver _ ↦ ⟨weight solver, rfl⟩

theorem Step.ordinary_bump (s : SolverId) (xs : List VarId) : Step.Within R e (Step.bump s xs) :=
  .get_bind ((Step.ordinary_weigh s _).bind fun _ _ _ _ ↦ Step.ordinary_tick.bind
    fun _ _ _ _ ↦ .forM fun x _ _ _ ↦ Pinning.pin x)

theorem Step.ordinary_unbump (s : SolverId) (xs : List VarId) :
    Step.Within R e (Step.unbump s xs) :=
  .get_bind ((Step.ordinary_weigh s _).bind fun _ _ _ _ ↦ Step.ordinary_tick.bind
    fun _ _ _ _ ↦ .forM fun x _ _ _ ↦ Pinning.unpin x)

namespace Call

theorem ordinary_setWeight (s : SolverId) (weight : Float) : Within R e (setWeight s weight) :=
  .bind (.of_callSolver fun solver hsolver ↦ Pinning.weigh s fun other hother ↦
    ⟨weight, by rw [Option.some.inj (hother.symm.trans hsolver)]⟩) fun _ _ _ _ ↦ .lift Step.ordinary_tick

theorem ordinary_bumpFor (x : VarId) (origin : Origin) (d : Defining) :
    Step.Within R e (bumpFor x origin d) := by
  unfold bumpFor
  split
  · exact .pure _
  · exact (Pinning.closure x).bind fun closure _ _ _ ↦
      (Step.ordinary_bump d.solver closure).bind fun _ _ _ _ ↦ .pure _

theorem ordinary_offer (x : VarId) (v : Value) (origin : Origin) (d : Defining) :
    Within R e (offer x v origin d) := by
  refine .lift_bind (ordinary_bumpFor x origin d) fun bumped e₁ _ _ ↦ ?_
  exact (operating_suggestTo d.solver d.handle v).attempt.bind fun _ _ _ _ ↦ .pure _

/-- The variable counts as being suggested to for the offer only. -/
theorem ordinary_suggestPrimary (x : VarId) (v : Value) (origin : Origin) (d : Defining) :
    Within R e (suggestPrimary x v origin d) := by
  refine .get_bind ?_
  split
  · exact .pure _
  · next hsuggesting =>
    have hoffer : ∀ e₁, Within R e₁ (offer x v origin d) := fun _ ↦ ordinary_offer x v origin d
    refine .bracket (g := fun g ↦ { g with suggesting := g.suggesting.erase x })
      (hoffer _) (unfailing_offer x v origin d _) (fun e₁ h₁ ↦ ?_)
      fun _ e₁ _ _ ↦ .lift_bind (Step.operating_reportSolve _ _ _) fun _ _ _ _ ↦ .pure _
    exact Pinning.suggesting (by simpa using hsuggesting) h₁

end Call

end LiveConstraints

import LiveConstraints.Engine.State
import LiveConstraints.Proofs.Solver
/-!
# The invariant of an engine

`Engine.Sound` relates the engine's tables to the state of its solvers. It holds between calls and
at every point inside a call at which anything else can run:

* *bindings* — a handle that a variable is bound to exists in its solver and belongs to no other
  variable;
* *ownership* — the primitives of a constraint exist and are no other constraint's, a clause that is
  on belongs to a constraint, and it is on exactly when its constraint is;
* *coverage* — a clause mentions existing handles only, and a variable that is bound to one of them
  takes part in the clause's constraint;
* *satisfaction* — the clauses of an enabled constraint are met by the values of its solver, unless
  the constraint is an assertion, which is switched on without solving.

It is an invariant of engines that evaluate predicates as expressions: an evaluator from outside may
compile a term that mentions whatever it likes.

Coverage is what makes it safe to drop a binding: a handle that no constraint of its variable uses
is mentioned by no clause.

Hooks and handlers are requests that are made later, so the invariant also says that whatever waits
to be made may be made.
-/

namespace LiveConstraints

/-! ### Requests that may be made -/

/-- A request that brings neither a solver nor requests to be made later. -/
def Request.isPlain : Request → Bool
  | .addSolver .. | .onWrite .. | .always .. | .once .. | .stay .. => false
  | _ => true

/-- The solvers that a request registers, also by way of hooks and handlers, are reference solvers
that were not used yet. -/
inductive Request.Admissible : Request → Prop where
  /-- Most requests register no solver. -/
  | plain {request : Request} (h : request.isPlain = true) : Admissible request
  /-- A solver that was not used yet. -/
  | addSolver {solver : Solver} {registerOnly : Bool} (h : solver.IsFresh) :
      Admissible (.addSolver solver registerOnly)
  /-- A hook. -/
  | onWrite {obj : ObjectId} {field : String} {actions : List Request}
      (h : ∀ action ∈ actions, Admissible action) : Admissible (.onWrite obj field actions)
  /-- A constraint, perhaps with a handler. -/
  | always {predicate : Expr} {options : ConstraintOptions}
      (h : ∀ handler, options.onError = some handler →
        ∀ action ∈ handler.actions, Admissible action) : Admissible (.always predicate options)
  /-- A predicate solved once, perhaps with a handler. -/
  | once {predicate : Expr} {options : ConstraintOptions}
      (h : ∀ handler, options.onError = some handler →
        ∀ action ∈ handler.actions, Admissible action) : Admissible (.once predicate options)
  /-- Stays, perhaps with a handler. -/
  | stay {predicate : Expr} {options : ConstraintOptions}
      (h : ∀ handler, options.onError = some handler →
        ∀ action ∈ handler.actions, Admissible action) : Admissible (.stay predicate options)

/-- All requests of a hook or handler may be made. -/
def Admissible (requests : List Request) : Prop := ∀ request ∈ requests, request.Admissible

/-- A constraint without a handler. -/
theorem Request.Admissible.unhandled {predicate : Expr} {options : ConstraintOptions}
    (h : options.onError = none) : (Request.always predicate options).Admissible := by
  refine .always fun handler hhandler ↦ ?_
  rw [h] at hhandler
  cases hhandler

/-- The requests of the handler, if there is one, may be made. -/
def AdmissibleOptions (options : ConstraintOptions) : Prop :=
  ∀ handler, options.onError = some handler → Admissible handler.actions

namespace Engine

/-- Predicates are evaluated as expressions, and whatever waits to be made may be made. -/
structure Tame (e : Engine) : Prop where
  /-- How predicates are evaluated. -/
  evaluator : e.config.evaluator = .expressions
  /-- The hooks of objects. -/
  hooks : ∀ obj o field hook, e.objects.get? obj = some o → o.hooks.find? field = some hook →
    Admissible hook
  /-- The handlers of constraints. -/
  options : ∀ id c, e.constraints.get? id = some c → AdmissibleOptions c.options
  /-- The deferred handlers. -/
  deferred : ∀ handler errors, .handle handler errors ∈ e.deferred → Admissible handler.actions
  /-- The hooks that a write collected. -/
  pending : ∀ hooks, e.pendingHooks = some hooks → ∀ h ∈ hooks, Admissible h.hook

/-- A change to the variables, the solvers and the guards is none to what waits to be made. -/
theorem Tame.beside {e e' : Engine} (h : e.Tame) (config : e'.config = e.config)
    (objects : e'.objects = e.objects) (constraints : e'.constraints = e.constraints)
    (deferred : e'.deferred = e.deferred) (pending : e'.pendingHooks = e.pendingHooks) :
    e'.Tame where
  evaluator := by rw [config]; exact h.evaluator
  hooks := by rw [objects]; exact h.hooks
  options := by rw [constraints]; exact h.options
  deferred := by rw [deferred]; exact h.deferred
  pending := by rw [pending]; exact h.pending

/-! ### Observations -/

/-- The value of a solver's variable. -/
def held? (e : Engine) (s : SolverId) (h : ExtVar) : Option Value :=
  (e.solvers.get? s).bind fun solver ↦ solver.held? h

/-- A solver's clause with what it demands, and whether it is on. -/
def clause? (e : Engine) (s : SolverId) (p : Primitive) : Option (Demand × Bool) :=
  (e.solvers.get? s).bind fun solver ↦ solver.clause? p

/-- How many primitives a solver handed out. -/
def issued (e : Engine) (s : SolverId) : Nat := ((e.solvers.get? s).map Solver.issued).getD 0

/-- The values of a solver's variables. -/
def valueIn (e : Engine) (s : SolverId) (h : ExtVar) : Value := (e.held? s h).getD .none

/-- A variable of the engine is represented by a solver's variable. -/
def Bound (e : Engine) (x : VarId) (s : SolverId) (h : ExtVar) : Prop :=
  ∃ v, e.vars.get? x = some v ∧ v.handle? s = some h

/-- A variable takes part in a constraint. -/
def Lists (e : Engine) (x : VarId) (id : ConstraintId) : Prop :=
  ∃ v, e.vars.get? x = some v ∧ id ∈ v.constraints.members

/-- A constraint exists. -/
def Live (e : Engine) (id : ConstraintId) : Prop := ∃ c, e.constraints.get? id = some c

/-- A primitive belongs to a constraint. -/
def Owned (e : Engine) (s : SolverId) (p : Primitive) : Prop :=
  ∃ id c, e.constraints.get? id = some c ∧ c.solver = s ∧ p ∈ c.primitives

/-- What a clause demands is a predicate over existing handles, and the variables bound to them take
part in the constraint. -/
structure Covers (e : Engine) (id : ConstraintId) (s : SolverId) (vars : List VarId)
    (d : Demand) : Prop where
  relation : d.IsRelation
  held : ∀ h, d.Mentions h → (e.held? s h).isSome = true
  listed : ∀ h x, d.Mentions h → e.Bound x s h → e.Lists x id ∧ x ∈ vars

/-- The invariant. -/
structure Sound (e : Engine) : Prop where
  /-- All solvers are reference solvers with well-formed clauses. -/
  trusted : ∀ s solver, e.solvers.get? s = some solver → solver.Trusted
  /-- A variable has one binding for each solver. -/
  ordered : ∀ x v, e.vars.get? x = some v → v.bindings.Ordered
  /-- A bound handle exists. -/
  bound : ∀ x s h, e.Bound x s h → (e.held? s h).isSome = true
  /-- A handle is bound to one variable at most. -/
  injective : ∀ x y s h, e.Bound x s h → e.Bound y s h → x = y
  /-- The primitives of a constraint exist. -/
  existing : ∀ id c, e.constraints.get? id = some c → ∀ p ∈ c.primitives,
    (e.clause? c.solver p).isSome = true
  /-- A primitive belongs to one constraint at most. -/
  unique : ∀ id c id' c', e.constraints.get? id = some c → e.constraints.get? id' = some c' →
    c.solver = c'.solver → ∀ p ∈ c.primitives, p ∈ c'.primitives → id = id'
  /-- The clauses of a constraint are compiled predicates that its variables cover. -/
  covered : ∀ id c, e.constraints.get? id = some c → ∀ p ∈ c.primitives, ∀ d on,
    e.clause? c.solver p = some (d, on) → e.Covers id c.solver c.vars d
  /-- A primitive is on exactly when its constraint is. -/
  switched : ∀ id c, e.constraints.get? id = some c → ∀ p ∈ c.primitives,
    (∃ d, e.clause? c.solver p = some (d, true)) ↔ c.enabled = true
  /-- A compiled predicate that is on belongs to a constraint. -/
  owner : ∀ s p d, e.clause? s p = some (d, true) → d.IsRelation → e.Owned s p
  /-- The clauses of an enabled constraint that is no assertion are met. -/
  met : ∀ id c, e.constraints.get? id = some c → c.enabled = true → c.isTest = false →
    ∀ p ∈ c.primitives, ∀ d, e.clause? c.solver p = some (d, true) → d.Met (e.valueIn c.solver)
  /-- Predicates are expressions, and whatever waits to be made may be made. -/
  tame : e.Tame

theorem sound_new {config : Setup} (evaluator : config.evaluator = .expressions) :
    (new config).Sound where
  trusted _ _ h := by cases h
  ordered _ _ h := by cases h
  bound _ _ _ h := by obtain ⟨_, h, -⟩ := h; cases h
  injective _ _ _ _ h := by obtain ⟨_, h, -⟩ := h; cases h
  existing _ _ h := by cases h
  unique _ _ _ _ h := by cases h
  covered _ _ h := by cases h
  switched _ _ h := by cases h
  owner _ _ _ h := by cases h
  met _ _ h := by cases h
  tame :=
    { evaluator
      hooks := fun _ _ _ _ h ↦ by cases h
      options := fun _ _ h ↦ by cases h
      deferred := fun _ _ h ↦ by cases h
      pending := fun _ h ↦ by cases h }

end Engine

end LiveConstraints

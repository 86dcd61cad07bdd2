import LiveConstraints.Proofs.Invariant
import Mathlib.Logic.Relation
/-!
# What the engine can do in one move

Every call is a sequence of the moves listed in `Engine.Move`. A move changes the tables of the
engine in one way, under the conditions that the code establishes before it does so. Two moves are
compound: switching a constraint on comprises the solving that follows (`activate`), and switching
it off, also after a failed attempt to switch it on, comprises all its primitives (`deactivate`). In
between the invariant does not hold, and nothing else can run.

`Engine.Path` is a sequence of moves.
-/

namespace LiveConstraints

namespace Solver

/-- All given clauses are switched on or off. -/
structure TogglesAll (s s' : Solver) (ps : List Primitive) (on : Bool) : Prop where
  held? : s'.held? = s.held?
  clause? : ∀ q, s'.clause? q
    = if q ∈ ps then (s.clause? q).map fun c ↦ (c.1, on) else s.clause? q
  issued : s'.issued = s.issued
  reference : s.IsReference → s'.IsReference

end Solver

namespace Engine

/-- Two states of a variable with the same links: what it intercepts, its bindings and its
constraints. -/
structure SameLinks (v w : Variable) : Prop where
  key : w.key = v.key
  bindings : w.bindings = v.bindings
  constraints : w.constraints = v.constraints

/-- Two states of a constraint that the invariant cannot tell apart, except that an assertion may
have been recognized. -/
structure SameCore (c d : Constraint) : Prop where
  solver : d.solver = c.solver
  primitives : d.primitives = c.primitives
  vars : d.vars = c.vars
  enabled : d.enabled = c.enabled
  options : d.options = c.options
  isTest : d.isTest = false → c.isTest = false

/-- Its strength, its mark and what is counted and measured of it are not what a constraint is made
of. -/
theorem SameCore.bookkeeping {c : Constraint} {priority : Priority} {interval counter : Nat}
    {initiating : Bool} {measurement : Option Measurement} :
    SameCore c { c with priority, interval, counter, initiating, measurement } :=
  ⟨rfl, rfl, rfl, rfl, rfl, fun h ↦ h⟩

/-- A clause of a constraint mentions a handle. -/
def Mentioned (e : Engine) (s : SolverId) (h : ExtVar) : Prop :=
  ∃ id c p d on, e.constraints.get? id = some c ∧ c.solver = s ∧ p ∈ c.primitives ∧
    e.clause? s p = some (d, on) ∧ d.Mentions h

/-- The engine may adopt a realization into a constraint that is off: its clauses are off, covered
by the constraint's variables, and no other constraint's. -/
structure Realizable (e : Engine) (id : ConstraintId) (c : Constraint) : Prop where
  disabled : c.enabled = false
  existing : ∀ p ∈ c.primitives, (e.clause? c.solver p).isSome = true
  off : ∀ p ∈ c.primitives, ∀ d, e.clause? c.solver p ≠ some (d, true)
  covered : ∀ p ∈ c.primitives, ∀ d on, e.clause? c.solver p = some (d, on) →
    e.Covers id c.solver c.vars d
  unique : ∀ id' c', e.constraints.get? id' = some c' → id' ≠ id → c'.solver = c.solver →
    ∀ p ∈ c.primitives, p ∉ c'.primitives

/-- A move of the engine. -/
inductive Move : Engine → Engine → Prop where
  /-- Guards, deferred work, pending hooks, sessions, events, the journal and the default solvers
  are no matter of the invariant. -/
  | aside {e e' : Engine} (config : e'.config = e.config) (objects : e'.objects = e.objects)
      (vars : e'.vars = e.vars) (constraints : e'.constraints = e.constraints)
      (solvers : e'.solvers = e.solvers) (tame : e.Tame → e'.Tame) : Move e e'
  /-- Objects and their fields change. -/
  | objects {e : Engine} (objects : Arena .object HostObject)
      (tame : e.Tame → { e with objects }.Tame) : Move e { e with objects }
  /-- Variables change apart from their links. -/
  | retouch {e : Engine} (vars : Arena .variable Variable)
      (links : ∀ x v, vars.get? x = some v → ∃ w, e.vars.get? x = some w ∧ SameLinks w v)
      (live : ∀ x v, e.vars.get? x = some v → ∃ w, vars.get? x = some w) : Move e { e with vars }
  /-- A new variable, not bound to anything. -/
  | allocate {e : Engine} (v : Variable) (unbound : v.bindings = ∅) :
      Move e { e with vars := e.vars.insert v }
  /-- A variable takes part in a constraint. -/
  | join {e : Engine} (x : VarId) (id : ConstraintId) :
      Move e { e with vars := e.vars.modify x fun v ↦
        { v with constraints := v.constraints.add id } }
  /-- A constraint touches more variables. -/
  | extend {e : Engine} (id : ConstraintId) (x : VarId) :
      Move e { e with constraints := e.constraints.modify id fun c ↦
        if c.vars.contains x then c else { c with vars := c.vars ++ [x] } }
  /-- A variable is bound to a handle that is new, or declined. -/
  | link {e : Engine} (x : VarId) (s : SolverId) (handle : Option ExtVar)
      (unbound : ∀ h, ¬ e.Bound x s h)
      (held : ∀ h, handle = some h → (e.held? s h).isSome = true)
      (free : ∀ h, handle = some h → ∀ y, ¬ e.Bound y s h)
      (unmentioned : ∀ h, handle = some h → ¬ e.Mentioned s h) :
      Move e { e with
        vars := e.vars.modify x fun v ↦ { v with bindings := v.bindings.insert s handle } }
  /-- A binding is dropped. -/
  | unlink {e : Engine} (x : VarId) (s : SolverId) :
      Move e { e with vars := e.vars.modify x fun v ↦ { v with bindings := v.bindings.erase s } }
  /-- A variable is released. -/
  | release {e : Engine} (x : VarId) : Move e { e with vars := e.vars.remove x }
  /-- A variable leaves a constraint that has nothing compiled, or is gone. -/
  | leave {e : Engine} (x : VarId) (id : ConstraintId)
      (bare : ∀ c, e.constraints.get? id = some c → c.primitives = []) :
      Move e { e with vars := e.vars.modify x fun v ↦
        { v with constraints := v.constraints.erase id } }
  /-- A constraint forgets a variable that is gone. -/
  | forget {e : Engine} (x : VarId) (id : ConstraintId) (gone : e.vars.get? x = none) :
      Move e { e with constraints := e.constraints.modify id fun c ↦
        { c with vars := c.vars.filter (· != x) } }
  /-- A constraint changes in what the invariant does not see. -/
  | adjust {e : Engine} (id : ConstraintId) (f : Constraint → Constraint)
      (core : ∀ c, SameCore c (f c)) :
      Move e { e with constraints := e.constraints.modify id f }
  /-- A new constraint, switched off and without primitives. -/
  | introduce {e : Engine} (c : Constraint) (primitives : c.primitives = [])
      (options : AdmissibleOptions c.options) :
      Move e { e with constraints := e.constraints.insert c }
  /-- A constraint that is off is dropped. -/
  | retire {e : Engine} (id : ConstraintId)
      (disabled : ∀ c, e.constraints.get? id = some c → c.enabled = false) :
      Move e { e with constraints := e.constraints.remove id }
  /-- A constraint that is off gets another realization. -/
  | reshape {e : Engine} (id : ConstraintId) (c c' : Constraint)
      (live : e.constraints.get? id = some c) (disabled : c.enabled = false)
      (options : c'.options = c.options) (realizable : e.Realizable id c') :
      Move e { e with constraints := e.constraints.modify id fun _ ↦ c' }
  /-- A constraint is switched on: its clauses are on, and unless it is an assertion its solver has
  solved. -/
  | activate {e : Engine} (id : ConstraintId) (c : Constraint) (f : Solver → Solver)
      (live : e.constraints.get? id = some c)
      (solves : ∀ solver, e.solvers.get? c.solver = some solver → ∃ switched,
        solver.TogglesAll switched c.primitives true ∧
          (c.isTest = true ∧ f solver = switched ∨ switched.Adopts (f solver))) :
      Move e { e with
        constraints := e.constraints.modify id fun c ↦ { c with enabled := true }
        solvers := e.solvers.modify c.solver f }
  /-- A constraint is switched off. -/
  | deactivate {e : Engine} (id : ConstraintId) (c : Constraint) (f : Solver → Solver)
      (live : e.constraints.get? id = some c)
      (toggles : ∀ solver, e.solvers.get? c.solver = some solver →
        solver.TogglesAll (f solver) c.primitives false) :
      Move e { e with
        constraints := e.constraints.modify id fun c ↦ { c with enabled := false }
        solvers := e.solvers.modify c.solver f }
  /-- A solver changes in nothing observable, or adopts values that meet its clauses. -/
  | adopt {e : Engine} (s : SolverId) (f : Solver → Solver)
      (adopts : ∀ solver, e.solvers.get? s = some solver →
        solver.Alike (f solver) ∨ solver.Adopts (f solver)) :
      Move e { e with solvers := e.solvers.modify s f }
  /-- A solver gets a variable. -/
  | declare {e : Engine} (s : SolverId) (f : Solver → Solver)
      (declares : ∀ solver, e.solvers.get? s = some solver → ∃ h v, solver.Declares (f solver) h v) :
      Move e { e with solvers := e.solvers.modify s f }
  /-- A solver forgets a variable that nothing is bound to and no constraint mentions. -/
  | undeclare {e : Engine} (s : SolverId) (h : ExtVar) (f : Solver → Solver)
      (forgets : ∀ solver, e.solvers.get? s = some solver → solver.Forgets (f solver) h)
      (free : ∀ x, ¬ e.Bound x s h) (unmentioned : ¬ e.Mentioned s h) :
      Move e { e with solvers := e.solvers.modify s f }
  /-- A solver gets a clause that no constraint has yet. -/
  | install {e : Engine} (s : SolverId) (f : Solver → Solver)
      (installs : ∀ solver, e.solvers.get? s = some solver →
        ∃ p d, solver.Installs (f solver) p d ∧ d.WellFormed) :
      Move e { e with solvers := e.solvers.modify s f }
  /-- A solver forgets a clause that belongs to no constraint. -/
  | erase {e : Engine} (s : SolverId) (p : Primitive) (f : Solver → Solver)
      (erases : ∀ solver, e.solvers.get? s = some solver → solver.Erases (f solver) p)
      (unowned : ¬ e.Owned s p) :
      Move e { e with solvers := e.solvers.modify s f }
  /-- A temporary demand that a variable keeps its value is switched on or off. -/
  | toggle {e : Engine} (s : SolverId) (p : Primitive) (on : Bool) (f : Solver → Solver)
      (toggles : ∀ solver, e.solvers.get? s = some solver → solver.Toggles (f solver) p on)
      (spare : ∀ d on, e.clause? s p = some (d, on) → ¬ d.IsRelation) :
      Move e { e with solvers := e.solvers.modify s f }
  /-- A solver that was not used yet is registered. -/
  | addSolver {e : Engine} (solver : Solver) (fresh : solver.IsFresh) :
      Move e { e with solvers := e.solvers.insert solver }

/-- A sequence of moves. -/
abbrev Path : Engine → Engine → Prop := Relation.ReflTransGen Move

end Engine

end LiveConstraints

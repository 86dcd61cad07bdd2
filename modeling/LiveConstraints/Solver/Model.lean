import LiveConstraints.Arena
import LiveConstraints.Priority
import LiveConstraints.Solver.Error
/-!
# A solver's model

What the reference solvers have in common: variables with a value, a read-only flag and a stay, and
compiled clauses that can be switched on at a priority. The solvers differ in what a compiled
relation is, so `Model` leaves that type open.

Everything a solver does is a function on its model. The functions that can fail return the
variables only when they succeed, so a failed call has nothing to undo.
-/

namespace LiveConstraints

/-- A solver's variable. -/
structure Slot where
  /-- The current value. -/
  value : Value
  /-- Whether the solver may not assign it. -/
  readonly : Bool
  /-- The preference for keeping the value, if any. -/
  stay : Option Priority

/-- A solver's variables. -/
abbrev Slots := Arena .external Slot

namespace Slots

/-- The value of a variable; a missing variable has the absent value. -/
def value (s : Slots) (x : ExtVar) : Value := ((s.get? x).map Slot.value).getD .none

/-- The number a variable holds; zero where it holds none. -/
def number (s : Slots) (x : ExtVar) : Float := ((s.get? x).bind fun c => c.value.asNumber?).getD 0.0

/-- Whether a variable is read-only; a missing variable is not. -/
def isReadonly (s : Slots) (x : ExtVar) : Bool := ((s.get? x).map Slot.readonly).getD false

/-- Whether a variable exists and has no stay. -/
def isFree (s : Slots) (x : ExtVar) : Bool := (s.get? x).any fun c => c.stay.isNone

/-- Sets the value of a variable that exists. -/
def assign (s : Slots) (x : ExtVar) (v : Value) : Slots := s.modify x fun c => { c with value := v }

/-- Sets the value of a variable, which has to exist. -/
def assign? (s : Slots) (x : ExtVar) (v : Value) : Except SolverError Slots :=
  if s.contains x then .ok (s.assign x v) else .error (.unknownVariable x)

/-- Adds a variable with a value, writable and without a stay. -/
def declare (s : Slots) (v : Value) : ExtVar × Slots :=
  (s.next, s.insert { value := v, readonly := false, stay := none })

end Slots

/-- A compiled clause: a relation, or the demand that a variable keeps a value. -/
inductive Clause (ρ υ : Type) where
  /-- A compiled predicate. -/
  | relation (r : ρ)
  /-- A variable keeps a value. -/
  | keeps (x : ExtVar) (v : υ)

/-- A clause and the priority it is switched on at, if it is on. -/
structure Installed (ρ υ : Type) where
  /-- The clause. -/
  clause : Clause ρ υ
  /-- The priority while the clause is on. -/
  enabled : Option Priority

/-- What a solver counts. -/
structure Stats where
  /-- Runs of the algorithm, also those for a suggestion. -/
  solveCalls : Nat := 0
  /-- Constraints built, also temporary ones. -/
  constructions : Nat := 0
  deriving DecidableEq, Repr

/-- The variables, clauses and counters of a solver. -/
structure Model (ρ υ : Type) where
  /-- The variables. -/
  slots : Slots := ∅
  /-- The clauses. -/
  clauses : Arena .primitive (Installed ρ υ) := ∅
  /-- The counters. -/
  stats : Stats := {}

namespace Model

variable {ρ υ : Type}

instance : Inhabited (Model ρ υ) := ⟨{}⟩

/-- Counts one run of the algorithm. -/
def countSolve (m : Model ρ υ) : Model ρ υ :=
  { m with stats := { m.stats with solveCalls := m.stats.solveCalls + 1 } }

/-- Counts one constraint built. -/
def countConstruction (m : Model ρ υ) : Model ρ υ :=
  { m with stats := { m.stats with constructions := m.stats.constructions + 1 } }

/-- Adds a variable. -/
def declare (m : Model ρ υ) (v : Value) : ExtVar × Model ρ υ :=
  let (x, slots) := m.slots.declare v
  (x, { m with slots })

/-- Installs a clause, switched off, and counts it. -/
def install (m : Model ρ υ) (clause : Clause ρ υ) : Primitive × Model ρ υ :=
  (m.clauses.next,
    { m with clauses := m.clauses.insert { clause, enabled := none } }.countConstruction)

/-- Switches a clause on at a priority, or off. -/
def setEnabled (m : Model ρ υ) (p : Primitive) (priority : Option Priority) :
    Except SolverError Unit × Model ρ υ :=
  if m.clauses.contains p then
    (.ok (), { m with clauses := m.clauses.modify p fun c => { c with enabled := priority } })
  else (.error (.unknownPrimitive p), m)

/-- The clauses that are on, with their priorities, in order of installation. -/
def enabled (m : Model ρ υ) : List (Clause ρ υ × Priority) :=
  m.clauses.live.filterMap fun (_, c) => c.enabled.map fun p => (c.clause, p)

/-- Sets the read-only flag of a variable that exists. -/
def setReadonly (m : Model ρ υ) (x : ExtVar) (on : Bool) : Model ρ υ :=
  { m with slots := m.slots.modify x fun c => { c with readonly := on } }

/-- Attaches a stay to a variable, which has to exist. -/
def setStay (m : Model ρ υ) (x : ExtVar) (priority : Priority) :
    Except SolverError Unit × Model ρ υ :=
  if m.slots.contains x then
    (.ok (), { m with slots := m.slots.modify x fun c => { c with stay := some priority } })
  else (.error (.unknownVariable x), m)

/-- Removes the stay of a variable. -/
def removeStay (m : Model ρ υ) (x : ExtVar) : Model ρ υ :=
  { m with slots := m.slots.modify x fun c => { c with stay := none } }

/-- Takes over the variables of a successful run; a failed run leaves the model as it is. -/
def settle (m : Model ρ υ) (run : Except SolverError Slots) : Except SolverError Unit × Model ρ υ :=
  match run with
  | .ok slots => (.ok (), { m with slots })
  | .error e => (.error e, m)

/-- Refuses a term all of whose variables are read-only; a term without variables is accepted. -/
def checkWritable (m : Model ρ υ) (t : Term) : Except SolverError Unit :=
  let xs := t.vars
  if !xs.isEmpty && xs.all m.slots.isReadonly then .error (.unsupported (.everyVariableReadonly t))
  else .ok ()

end Model

end LiveConstraints

import LiveConstraints.Solver.Capabilities
import LiveConstraints.Solver.Model
/-!
# Stub solvers

A stub declares capabilities and does nothing with them: it stores values, and its primitives hold
trivially. Unless it accepts, it refuses to compile. Stubs fill a registry whose selection rules are
of interest, and count how often they were asked.
-/

namespace LiveConstraints

/-- A solver that only declares capabilities. -/
structure Stub where
  /-- What it declares. -/
  capabilities : Capabilities
  /-- Whether it compiles what it is given. -/
  accepting : Bool := false
  /-- Its values with their read-only flags. -/
  cells : Array (Value × Bool) := #[]
  /-- How many primitives it handed out. -/
  primitives : Nat := 0
  /-- How often it was asked to compile. -/
  compileAttempts : Nat := 0

namespace Stub

/-- The weight a stub starts with. -/
def initialWeight : Float := 10.0

/-- Whether a variable exists. -/
def contains (s : Stub) (x : ExtVar) : Bool := x.index < s.cells.size

/-- The value of a variable. -/
def value (s : Stub) (x : ExtVar) : Value := ((s.cells[x.index]?).map Prod.fst).getD .none

/-- Whether a variable is marked read-only. -/
def isReadonly (s : Stub) (x : ExtVar) : Bool := ((s.cells[x.index]?).map Prod.snd).getD false

/-- Marks a variable read-only or writable. -/
def setReadonly (s : Stub) (x : ExtVar) (on : Bool) : Stub :=
  { s with cells := s.cells.modify x.index fun c => (c.1, on) }

/-- Adds a variable for a value of a declared type. -/
def declare (s : Stub) (v : Value) : Option ExtVar × Stub :=
  if s.capabilities.supportsType v.tag then
    (some ⟨s.cells.size⟩, { s with cells := s.cells.push (v, false) })
  else (none, s)

/-- The next primitive. -/
def nextPrimitive (s : Stub) : Primitive × Stub :=
  (⟨s.primitives⟩, { s with primitives := s.primitives + 1 })

/-- Counts the attempt and hands out a primitive if the stub accepts; a refusal names `solver`. -/
def compile (s : Stub) (solver : String) (t : Term) : Except SolverError Primitive × Stub :=
  let s := { s with compileAttempts := s.compileAttempts + 1 }
  if s.accepting then
    let (p, s) := s.nextPrimitive
    (.ok p, s)
  else (.error (.unsupported (.cannotCompile solver t)), s)

/-- Hands out a primitive for a variable that exists. -/
def keep (s : Stub) (x : ExtVar) : Except SolverError Primitive × Stub :=
  if s.contains x then
    let (p, s) := s.nextPrimitive
    (.ok p, s)
  else (.error (.unknownVariable x), s)

/-- Fails unless a variable exists. -/
def check (s : Stub) (x : ExtVar) : Except SolverError Unit :=
  if s.contains x then .ok () else .error (.unknownVariable x)

/-- Stores a value. -/
def suggest (s : Stub) (x : ExtVar) (v : Value) : Except SolverError Unit × Stub :=
  match s.check x with
  | .error e => (.error e, s)
  | .ok () => (.ok (), { s with cells := s.cells.modify x.index fun c => (v, c.2) })

end Stub

end LiveConstraints

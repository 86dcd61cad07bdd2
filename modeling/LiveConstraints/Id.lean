/-!
# Identities

Objects, variables, constraints, solvers, solver variables and solver primitives are all addressed
by an index into the table that holds them. One type serves all six: the phantom `Kind` keeps an
object's index from being used as a variable's, and carries the label under which the index is
shown.
-/

namespace LiveConstraints

/-- What an index refers to. -/
inductive Kind where
  /-- A host object. -/
  | object
  /-- A variable that intercepts a field. -/
  | variable
  /-- A maintained constraint. -/
  | constraint
  /-- A registered solver. -/
  | solver
  /-- A solver's own variable. -/
  | external
  /-- A solver's own compiled constraint. -/
  | primitive
  deriving DecidableEq, Repr

/-- The label that precedes an index of this kind. -/
def Kind.label : Kind → String
  | .object => "obj"
  | .variable => "var"
  | .constraint => "constraint"
  | .solver => "solver"
  | .external => "ext"
  | .primitive => "prim"

/-- An index into the table of one kind of thing, counted from zero. -/
structure Id (κ : Kind) where
  /-- The position in the table. -/
  index : Nat
  deriving DecidableEq, Repr

/-- Identity of a host object. -/
abbrev ObjectId := Id .object
/-- Identity of a constrained variable. -/
abbrev VarId := Id .variable
/-- Identity of a constraint; it survives a change of solver. -/
abbrev ConstraintId := Id .constraint
/-- Identity of a solver in the engine's registry. -/
abbrev SolverId := Id .solver
/-- A solver's private handle for one value. -/
abbrev ExtVar := Id .external
/-- A solver's private handle for one compiled constraint. -/
abbrev Primitive := Id .primitive

namespace Id

variable {κ : Kind}

instance : Inhabited (Id κ) := ⟨⟨0⟩⟩

instance : LT (Id κ) := ⟨fun a b => a.index < b.index⟩

instance (a b : Id κ) : Decidable (a < b) := inferInstanceAs (Decidable (a.index < b.index))

/-- An identity is shown as its label, a number sign and the index. -/
def render (i : Id κ) : String := κ.label ++ "#" ++ toString i.index

instance : ToString (Id κ) := ⟨render⟩

end Id

end LiveConstraints

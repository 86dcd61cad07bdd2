/-!
# Priorities

How strongly a constraint or a stay is held. Everything below `required` is a preference.
-/

namespace LiveConstraints

/-- The strength with which a constraint or a stay is held. -/
inductive Priority where
  /-- The weakest preference. -/
  | weak
  /-- A medium preference. -/
  | medium
  /-- The strongest preference. -/
  | strong
  /-- Must hold. -/
  | required
  deriving DecidableEq, Repr, Inhabited

namespace Priority

/-- The place of a priority in the ascending order. -/
def rank : Priority → Nat
  | .weak => 1
  | .medium => 2
  | .strong => 3
  | .required => 4

/-- Whether the constraint must hold. -/
def isRequired (p : Priority) : Bool := p = .required

/-- The name of a priority. -/
def render : Priority → String
  | .weak => "weak"
  | .medium => "medium"
  | .strong => "strong"
  | .required => "required"

end Priority

end LiveConstraints

import LiveConstraints.Value
/-!
# Capabilities

What a solver declares about itself. Candidates are filtered by these declarations before anything
is built for them.
-/

namespace LiveConstraints

/-- What a solver declares it can host. -/
structure Capabilities where
  /-- One-way formula methods. -/
  methods : Bool := false
  /-- Priorities below required. -/
  softConstraints : Bool := false
  /-- Restrictions to finite domains. -/
  finiteDomains : Bool := false
  /-- Edit sessions. -/
  edit : Bool := false
  /-- The types of value it has variables for. -/
  types : List TypeTag := []
  deriving DecidableEq, Repr

/-- Whether the solver has variables for a type. -/
def Capabilities.supportsType (c : Capabilities) (t : TypeTag) : Bool := c.types.contains t

end LiveConstraints

import LiveConstraints.Operator
/-!
# Solver terms

What a predicate becomes for one solver: the same operators over that solver's own variables. A term
says nothing about objects or fields, and every solver compiles it in its own way.
-/

namespace LiveConstraints

/-- A predicate over one solver's variables. -/
inductive Term where
  /-- A variable of the solver. -/
  | var (x : ExtVar)
  /-- A constant. -/
  | const (v : Value)
  /-- An operator with one operand. -/
  | unary (op : Operator) (t : Term)
  /-- An operator with two operands. -/
  | binary (op : Operator) (l r : Term)
  /-- Membership in a finite domain. -/
  | inDomain (t : Term) (domain : List Value)

namespace Term

instance : Inhabited Term := ⟨.const .none⟩

/-- The value of a term when its variables are looked up. -/
def evaluate (lookup : ExtVar → Value) : Term → Value
  | .var x => lookup x
  | .const v => v
  | .unary op t => op.applyUnary (t.evaluate lookup)
  | .binary op l r => op.applyBinary (l.evaluate lookup) (r.evaluate lookup)
  | .inDomain t domain => .bool ((t.evaluate lookup).inDomain domain)

/-- Adds the variables of a term behind those collected so far, each once. -/
def collectVariables (seen : List ExtVar) : Term → List ExtVar
  | .var x => if seen.contains x then seen else seen ++ [x]
  | .const _ => seen
  | .unary _ t => t.collectVariables seen
  | .binary _ l r => r.collectVariables (l.collectVariables seen)
  | .inDomain t _ => t.collectVariables seen

/-- The variables of a term, each once, in the order they first occur. -/
def vars (t : Term) : List ExtVar := t.collectVariables []

/-- The operands of the conjunctions at the top of a term. -/
def conjuncts : Term → List Term
  | .binary .and l r => l.conjuncts ++ r.conjuncts
  | t => [t]

/-- How a term is shown; a domain is shown by its size only. -/
def render : Term → String
  | .var x => x.render
  | .const v => v.render
  | .unary op t => "(" ++ op.symbol ++ t.render ++ ")"
  | .binary op l r => "(" ++ l.render ++ " " ++ op.symbol ++ " " ++ r.render ++ ")"
  | .inDomain t domain => "(" ++ t.render ++ " in " ++ toString domain.length ++ " values)"

end Term

end LiveConstraints

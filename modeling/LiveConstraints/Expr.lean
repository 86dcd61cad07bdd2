import LiveConstraints.Operator
/-!
# Predicates

The expression trees that requests are made of. Their leaves are constants, names bound by the
request and members of other expressions, so an expression can follow paths through objects.
`Expr.fold` evaluates what needs no object and no name.
-/

namespace LiveConstraints

/-- A node of a predicate. -/
inductive Expr where
  /-- A constant. -/
  | const (v : Value)
  /-- A name bound by the request. -/
  | name (n : String)
  /-- A field of an object, or a part of a composite value. -/
  | member (base : Expr) (field : String)
  /-- An operator with one operand. -/
  | unary (op : Operator) (e : Expr)
  /-- An operator with two operands. -/
  | binary (op : Operator) (l r : Expr)
  /-- The solver may read the wrapped field but never assign it. -/
  | readonly (e : Expr)
  /-- Membership in a finite domain. -/
  | inDomain (e : Expr) (domain : List Value)

namespace Expr

instance : Inhabited Expr := ⟨.const .none⟩

/-- The value of an expression without names and members, every operator applied to the values of
its operands. -/
def fold : Expr → Option Value
  | .const v => some v
  | .name _ => none
  | .member _ _ => none
  | .unary op e => e.fold.map op.applyUnary
  | .binary op l r => l.fold.bind fun a => r.fold.map fun b => op.applyBinary a b
  | .readonly e => e.fold
  | .inDomain e domain => e.fold.map fun v => .bool (v.inDomain domain)

/-- Whether a membership in a finite domain occurs. -/
def hasFiniteDomain : Expr → Bool
  | .inDomain _ _ => true
  | .const _ => false
  | .name _ => false
  | .member base _ => base.hasFiniteDomain
  | .unary _ e => e.hasFiniteDomain
  | .readonly e => e.hasFiniteDomain
  | .binary _ l r => l.hasFiniteDomain || r.hasFiniteDomain

/-- How an expression is shown: every operator in parentheses, magnitudes and read-only marks as
calls. -/
def render : Expr → String
  | .const v => v.render
  | .name n => n
  | .member base field => base.render ++ "." ++ field
  | .unary .abs e => "abs(" ++ e.render ++ ")"
  | .unary op e => "(" ++ op.symbol ++ e.render ++ ")"
  | .binary op l r => "(" ++ l.render ++ " " ++ op.symbol ++ " " ++ r.render ++ ")"
  | .readonly e => "ro(" ++ e.render ++ ")"
  | .inDomain e domain =>
    "(" ++ e.render ++ " in [" ++ ", ".intercalate (domain.map Value.render) ++ "])"

end Expr

end LiveConstraints

import LiveConstraints.Value
/-!
# Operators

The operators that predicates and solver terms share, with their meaning on values. Application is
total: an operand of the wrong type gives the absent value, except that the relations and the two
connectives always answer with a boolean.
-/

namespace LiveConstraints

/-- An operator of a predicate. -/
inductive Operator where
  /-- Addition of numbers; appending to a text. -/
  | add
  /-- Subtraction. -/
  | sub
  /-- Multiplication. -/
  | mul
  /-- Division. -/
  | div
  /-- Negation of a number. -/
  | neg
  /-- Magnitude of a number. -/
  | abs
  /-- Agreement. -/
  | eq
  /-- Disagreement. -/
  | ne
  /-- Strictly before. -/
  | lt
  /-- Before or in agreement. -/
  | le
  /-- Strictly after. -/
  | gt
  /-- After or in agreement. -/
  | ge
  /-- Conjunction. -/
  | and
  /-- Disjunction. -/
  | or
  /-- Negation of a boolean. -/
  | not
  /-- Membership in a finite domain. -/
  | inDomain
  deriving DecidableEq, Repr, Inhabited

namespace Operator

/-- All operators, in their order. -/
def all : List Operator :=
  [.add, .sub, .mul, .div, .neg, .abs, .eq, .ne, .lt, .le, .gt, .ge, .and, .or, .not, .inDomain]

/-- Whether the operator relates two values. -/
def isRelation : Operator → Bool
  | .eq | .ne | .lt | .le | .gt | .ge | .inDomain => true
  | _ => false

/-- Whether the operator connects booleans. -/
def isLogical : Operator → Bool
  | .and | .or | .not => true
  | _ => false

/-- The sign an operator is written with. -/
def symbol : Operator → String
  | .add => "+"
  | .sub => "-"
  | .mul => "*"
  | .div => "/"
  | .neg => "-"
  | .abs => "abs"
  | .eq => "=="
  | .ne => "!="
  | .lt => "<"
  | .le => "<="
  | .gt => ">"
  | .ge => ">="
  | .and => "&&"
  | .or => "||"
  | .not => "!"
  | .inDomain => "in"

instance : ToString Operator := ⟨symbol⟩

/-- Applies an operator to one value. The absent value counts as false under negation. -/
def applyUnary : Operator → Value → Value
  | .neg, .number x => .number (-x)
  | .abs, .number x => .number x.abs
  | .not, .bool b => .bool !b
  | .not, .none => .bool true
  | _, _ => .none

/-- Arithmetic on two numbers; the absent value on anything else. -/
def arithmetic (f : Float → Float → Float) : Value → Value → Value
  | .number x, .number y => .number (f x y)
  | _, _ => .none

/-- Adds two numbers, or appends a value to a text: another text as it is, any other value as it is
shown. -/
def applyAdd : Value → Value → Value
  | .number x, .number y => .number (x + y)
  | .text s, .text t => .text (s ++ t)
  | .text s, v => .text (s ++ v.render)
  | _, _ => .none

/-- A connective on two booleans; false on anything else. -/
def connective (f : Bool → Bool → Bool) (l r : Value) : Value :=
  match l.asBool?, r.asBool? with
  | some a, some b => .bool (f a b)
  | _, _ => .bool false

/-- Applies an operator to two values. -/
def applyBinary (op : Operator) (l r : Value) : Value :=
  match op with
  | .add => applyAdd l r
  | .sub => arithmetic (· - ·) l r
  | .mul => arithmetic (· * ·) l r
  | .div => arithmetic (· / ·) l r
  | .eq => .bool (l.near r)
  | .ne => .bool !(l.near r)
  | .lt => .bool (l.compare? r == some .lt)
  | .le => .bool (((l.compare? r).any Ordering.isLE) || l.near r)
  | .gt => .bool (l.compare? r == some .gt)
  | .ge => .bool (((l.compare? r).any Ordering.isGE) || l.near r)
  | .and => connective (· && ·) l r
  | .or => connective (· || ·) l r
  | .neg | .abs | .not | .inDomain => .none

end Operator

end LiveConstraints

import LiveConstraints.Id
import LiveConstraints.Decimal.Text
import LiveConstraints.Text.Quoted
/-!
# Values

A field holds a value of one of seven types. Points and colors are *composite*: they have named
numeric parts that can be constrained on their own.

Two relations on values matter. `Value.near` is the equality that constraints see: numbers, also
those inside a point, agree when they differ by less than `tolerance`; everything else agrees when
it is equal. It is not transitive, and an infinite or undefined number is not near itself.
`Value.compare?` orders numbers, texts and booleans among themselves and nothing else.
-/

namespace LiveConstraints

/-- The type of a value. -/
inductive TypeTag where
  /-- The absent value. -/
  | none
  /-- A number. -/
  | number
  /-- A boolean. -/
  | bool
  /-- A text. -/
  | text
  /-- A point in the plane. -/
  | point
  /-- A color with an opacity. -/
  | color
  /-- A reference to an object. -/
  | object
  deriving DecidableEq, Repr, Inhabited

/-- All types, in their order. -/
def TypeTag.all : List TypeTag := [.none, .number, .bool, .text, .point, .color, .object]

/-- The name of a type. -/
def TypeTag.render : TypeTag → String
  | .none => "none"
  | .number => "number"
  | .bool => "bool"
  | .text => "text"
  | .point => "point"
  | .color => "color"
  | .object => "object"

/-- A point in the plane. -/
structure Point where
  /-- The first coordinate. -/
  x : Float
  /-- The second coordinate. -/
  y : Float

/-- A color with an opacity. -/
structure Color where
  /-- The red share. -/
  r : Float
  /-- The green share. -/
  g : Float
  /-- The blue share. -/
  b : Float
  /-- The opacity. -/
  a : Float

/-- What a field can hold. -/
inductive Value where
  /-- The absent value. -/
  | none
  /-- A number. -/
  | number (x : Float)
  /-- A boolean. -/
  | bool (b : Bool)
  /-- A text. -/
  | text (s : String)
  /-- A point in the plane. -/
  | point (p : Point)
  /-- A color with an opacity. -/
  | color (c : Color)
  /-- A reference to an object, so that fields can form paths. -/
  | object (id : ObjectId)

namespace Value

instance : Inhabited Value := ⟨.none⟩

/-- The type of a value. -/
def tag : Value → TypeTag
  | .none => .none
  | .number _ => .number
  | .bool _ => .bool
  | .text _ => .text
  | .point _ => .point
  | .color _ => .color
  | .object _ => .object

/-- The number a value holds. -/
def asNumber? : Value → Option Float
  | .number x => some x
  | _ => Option.none

/-- The boolean a value holds. -/
def asBool? : Value → Option Bool
  | .bool b => some b
  | _ => Option.none

/-- The object a value refers to. -/
def asObject? : Value → Option ObjectId
  | .object id => some id
  | _ => Option.none

/-- Whether a value is absent. -/
def isNone : Value → Bool
  | .none => true
  | _ => false

/-- Whether a value is the boolean `true`. -/
def isTrue : Value → Bool
  | .bool b => b
  | _ => false

/-! ### Parts of composite values -/

/-- The named parts of a composite value; other values have none. -/
def parts : Value → List (String × Float)
  | .point p => [("x", p.x), ("y", p.y)]
  | .color c => [("r", c.r), ("g", c.g), ("b", c.b), ("a", c.a)]
  | _ => []

/-- Whether a value has parts. -/
def isComposite : Value → Bool
  | .point _ => true
  | .color _ => true
  | _ => false

/-- The part with a given name. -/
def part? (v : Value) (name : String) : Option Float := v.parts.lookup name

/-- The composite value with one part replaced; `none` when there is no such part. -/
def withPart? (v : Value) (name : String) (x : Float) : Option Value :=
  match v, name with
  | .point p, "x" => some (.point { p with x })
  | .point p, "y" => some (.point { p with y := x })
  | .color c, "r" => some (.color { c with r := x })
  | .color c, "g" => some (.color { c with g := x })
  | .color c, "b" => some (.color { c with b := x })
  | .color c, "a" => some (.color { c with a := x })
  | _, _ => Option.none

/-! ### Agreement and order -/

/-- Numbers closer than this agree. -/
def tolerance : Float := 1e-9

/-- Whether two numbers agree. -/
def numbersNear (x y : Float) : Bool := (x - y).abs < tolerance

/-- Whether two values agree: numbers and points up to the tolerance, everything else exactly. -/
def near : Value → Value → Bool
  | .number x, .number y => numbersNear x y
  | .point p, .point q => numbersNear p.x q.x && numbersNear p.y q.y
  | .color c, .color d => c.r == d.r && c.g == d.g && c.b == d.b && c.a == d.a
  | .none, .none => true
  | .bool a, .bool b => a == b
  | .text s, .text t => s == t
  | .object i, .object j => i == j
  | _, _ => false

/-- The order of two numbers; undefined next to a not-a-number. -/
def compareNumbers? (x y : Float) : Option Ordering :=
  if x < y then some .lt
  else if x == y then some .eq
  else if y < x then some .gt
  else Option.none

/-- The order of two values, where they have one. Texts are ordered by code points, and `false`
comes before `true`. -/
def compare? : Value → Value → Option Ordering
  | .number x, .number y => compareNumbers? x y
  | .text s, .text t => some (compare s t)
  | .bool a, .bool b => some (compare a b)
  | _, _ => Option.none

/-- Whether a value agrees with a member of a finite domain. -/
def inDomain (v : Value) (domain : List Value) : Bool := domain.any fun d => v.near d

/-! ### Text -/

/-- Numbers separated by commas, in parentheses after a label. -/
def renderTuple (label : String) (xs : List Float) : String :=
  label ++ "(" ++ ", ".intercalate (xs.map Decimal.render) ++ ")"

/-- How a value is shown in messages. -/
def render : Value → String
  | .none => "none"
  | .number x => Decimal.render x
  | .bool b => if b then "true" else "false"
  | .text s => Text.quote s
  | .point p => renderTuple "pt" [p.x, p.y]
  | .color c => renderTuple "rgba" [c.r, c.g, c.b, c.a]
  | .object id => id.render

instance : ToString Value := ⟨render⟩

end Value

end LiveConstraints

import LiveConstraints.Decimal.Binary
/-!
# The fewest digits that read back

A double stands for an interval of reals, those that round to it; its ends belong to it when the
mantissa is even. Among the decimals in that interval, `shortest` takes one with the fewest digits,
and of those the nearest to the value; of two equally near it takes the larger.

On the grid of decimals with `n` digits only the two neighbours of the value have to be tried: if
any grid point lies in the interval, one of them does.
-/

namespace LiveConstraints.Decimal

/-- A positive decimal `digits · 10 ^ exponent`. -/
structure Digits where
  /-- The significant digits as a number. -/
  digits : Nat
  /-- The power of ten they are multiplied by. -/
  exponent : Int
  deriving DecidableEq, Repr

/-- How many decimal digits a number is written with. -/
def digitCount (n : Nat) : Nat := (Nat.toDigits 10 n).length

/-- The largest `e` with `10 ^ e ≤ num / den`, for a positive quotient. -/
def decimalExponent (num den : Nat) : Int :=
  if den ≤ num then (digitCount (num / den) : Int) - 1
  else -(digitCount ((den + num - 1) / num - 1) : Int)

/-- The interval of a positive double in units of a quarter of its last place: lower end, value,
upper end, whether the ends belong to it. Below a power of two the gap is only half as wide. -/
def roundingInterval (b : Binary) : Nat × Nat × Nat × Bool :=
  let value := 4 * b.mantissa
  let lower :=
    if b.mantissa = leadingBit && minExponent < b.exponent then value - 1 else value - 2
  (lower, value, value + 2, b.mantissa % 2 = 0)

/-- The better neighbour of the value on the grid of `n`-digit decimals, if one of the two rounds
back to it. -/
def gridNeighbour (b : Binary) (leading : Int) (n : Nat) : Option Digits :=
  let (lower, value, upper, closed) := roundingInterval b
  let step := leading - n + 1
  let (p2, q2) := powQuotient 2 (b.exponent - 2)
  let (p10, q10) := powQuotient 10 step
  -- `x` quarter places and `c` grid steps are compared as `x * unit` and `c * grid`.
  let unit := p2 * q10
  let grid := p10 * q2
  let within (c : Nat) : Bool :=
    if closed then lower * unit ≤ c * grid && c * grid ≤ upper * unit
    else lower * unit < c * grid && c * grid < upper * unit
  let below := value * unit / grid
  let above := below + 1
  let remainder := value * unit - below * grid
  match within below, within above with
  | true, true => some ⟨if 2 * remainder < grid then below else above, step⟩
  | true, false => some ⟨below, step⟩
  | false, true => some ⟨above, step⟩
  | false, false => none

/-- The shortest decimal that reads back as a positive double. Seventeen digits always suffice. -/
def shortest (b : Binary) : Digits :=
  let (num, den) := b.quotient
  let leading := decimalExponent num den
  ((List.range 17).findSome? fun i => gridNeighbour b leading (i + 1)).getD ⟨0, 0⟩

end LiveConstraints.Decimal

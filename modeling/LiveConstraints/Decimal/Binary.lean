import LiveConstraints.Decimal.Rounding
/-!
# Doubles as integers times powers of two

A finite double is `± mantissa · 2 ^ exponent`. `classify` reads that form off the bits and
`nearest` goes the other way: it rounds a positive quotient of natural numbers to the closest
double, a tie going to the even mantissa, by exact integer arithmetic. Nothing here uses
floating-point operations, so what is printed and read does not depend on how they round.
-/

namespace LiveConstraints.Decimal

/-- A finite double: `± mantissa · 2 ^ exponent`. -/
structure Binary where
  /-- The sign, which zero has too. -/
  negative : Bool
  /-- The mantissa, below `2 ^ 53`. -/
  mantissa : Nat
  /-- The binary exponent, at least `-1074`. -/
  exponent : Int
  deriving DecidableEq, Repr

/-- The three kinds of double. -/
inductive FloatClass where
  /-- Not a number. -/
  | nan
  /-- An infinity, with its sign. -/
  | infinite (negative : Bool)
  /-- A finite number. -/
  | finite (value : Binary)

/-- `2 ^ 52`: the bit above the stored digits of a mantissa, and the weight of the exponent bits. -/
def leadingBit : Nat := 4503599627370496

/-- `2 ^ 53`: mantissas are below it. -/
def mantissaLimit : Nat := 9007199254740992

/-- `2 ^ 63`: the bit of the sign. -/
def signBit : Nat := 9223372036854775808

/-- The exponent of infinities and of what is not a number, as it is stored. -/
def topExponent : Nat := 2047

/-- The smallest exponent of a finite double. -/
def minExponent : Int := -1074

/-- Splits a double into its class and parts. -/
def classify (x : Float) : FloatClass :=
  let bits := x.toBits.toNat
  let negative := decide (signBit ≤ bits)
  let biased : Nat := bits / leadingBit % (topExponent + 1)
  let fraction := bits % leadingBit
  if biased = topExponent then
    if fraction = 0 then .infinite negative else .nan
  else if biased = 0 then .finite ⟨negative, fraction, minExponent⟩
  else .finite ⟨negative, fraction + leadingBit, (biased : Int) - 1075⟩

/-- `base ^ e` as a quotient: the power stands in the numerator when `e` is not negative and in the
denominator otherwise. -/
def powQuotient (base : Nat) (e : Int) : Nat × Nat :=
  if 0 ≤ e then (Nat.pow base e.toNat, 1) else (1, Nat.pow base (-e).toNat)

/-- The magnitude of a finite double as a quotient. -/
def Binary.quotient (b : Binary) : Nat × Nat :=
  let (num, den) := powQuotient 2 b.exponent
  (b.mantissa * num, den)

/-- The double with a given mantissa and exponent; the exponent is at least `-1074` and the mantissa
below `2 ^ 53`, and a full mantissa is required above the smallest exponent. -/
def assemble (negative : Bool) (mantissa : Nat) (exponent : Int) : Float :=
  let magnitude :=
    if mantissa < leadingBit then mantissa
    else if 971 < exponent then topExponent * leadingBit
    else (exponent + 1075).toNat * leadingBit + (mantissa - leadingBit)
  Float.ofBits (UInt64.ofNat (magnitude + if negative then signBit else 0))

/-- The double nearest to `num / den`. The mantissa is rounded once, at the exponent that leaves it
fifty-three bits or at the smallest exponent, so subnormal results are rounded correctly too. -/
def nearest (negative : Bool) (num den : Nat) : Float :=
  if num = 0 || den = 0 then assemble negative 0 minExponent
  else
    let mantissaAt (e : Int) : Nat :=
      let (p, q) := powQuotient 2 e
      roundEven (num * q) (den * p)
    let floorAt (e : Int) : Nat :=
      let (p, q) := powQuotient 2 e
      num * q / (den * p)
    let guess : Int := (num.log2 : Int) - (den.log2 : Int) - 53
    let exponent := if floorAt guess < mantissaLimit then guess else guess + 1
    let exponent := if exponent < minExponent then minExponent else exponent
    let mantissa := mantissaAt exponent
    if mantissa < mantissaLimit then assemble negative mantissa exponent
    else assemble negative (mantissa / 2) (exponent + 1)

end LiveConstraints.Decimal

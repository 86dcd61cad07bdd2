import LiveConstraints.Decimal.Shortest
/-!
# Numbers as text

Three text forms of a double. `render` writes the shortest digits that read back, always positional
and with no point after an integer. `renderFixed` writes a fixed number of places, rounded from the
exact binary value. `ofString?` reads a decimal with an optional exponent, or one of the words for
infinity and not-a-number, and rounds once.
-/

namespace LiveConstraints.Decimal

/-- The words for the numbers that have no digits, and the sign. -/
def nanText : String := "NaN"

/-- The word for infinity. -/
def infinityText : String := "inf"

/-- Prepends a minus sign. -/
def withSign (negative : Bool) (text : String) : String := if negative then "-" ++ text else text

/-- Writes a digit string with the point `places` digits from its right end; zeros fill up to at
least one digit before the point. -/
def placePoint (digits : List Char) (places : Nat) : List Char × List Char :=
  let padded := List.replicate (places + 1 - digits.length) '0' ++ digits
  padded.splitAt (padded.length - places)

/-- Joins the digits before and after the point, and leaves the point out where none follow. -/
def joinPoint (parts : List Char × List Char) : String :=
  match parts with
  | (whole, []) => String.ofList whole
  | (whole, fraction) => String.ofList (whole ++ '.' :: fraction)

/-- Positional text of a decimal, without trailing zeros after the point. -/
def Digits.render (d : Digits) : String :=
  let digits := Nat.toDigits 10 d.digits
  if 0 ≤ d.exponent then String.ofList (digits ++ List.replicate d.exponent.toNat '0')
  else
    let (whole, fraction) := placePoint digits (-d.exponent).toNat
    joinPoint (whole, (fraction.reverse.dropWhile (· = '0')).reverse)

/-- The text of a number: the fewest digits that read back, positional, an integer without point. -/
def render (x : Float) : String :=
  match classify x with
  | .nan => nanText
  | .infinite negative => withSign negative infinityText
  | .finite b => withSign b.negative (if b.mantissa = 0 then "0" else (shortest b).render)

/-- The text of a number with a fixed count of places; the exact value is rounded, and a half goes
to the even digit. -/
def renderFixed (places : Nat) (x : Float) : String :=
  match classify x with
  | .nan => nanText
  | .infinite negative => withSign negative infinityText
  | .finite b =>
    let (num, den) := b.quotient
    let scaled := roundEven (num * Nat.pow 10 places) den
    withSign b.negative (joinPoint (placePoint (Nat.toDigits 10 scaled) places))

/-- An infinity. -/
def infinite (negative : Bool) : Float := assemble negative leadingBit 972

/-- The positive infinity. -/
def infinity : Float := infinite false

/-- The double nearest to `± digits · 10 ^ exponent`. Exponents far outside the range of doubles are
answered without computing the power. -/
def toFloat (negative : Bool) (digits : Nat) (exponent : Int) : Float :=
  let magnitude := (digitCount digits : Int) + exponent
  if digits = 0 || magnitude < -400 then assemble negative 0 minExponent
  else if 400 < magnitude then infinite negative
  else
    let (p, q) := powQuotient 10 exponent
    nearest negative (digits * p) q

/-- The value of a string of decimal digits. -/
def digitsValue (ds : List Char) : Nat := ds.foldl (fun n c => 10 * n + (c.toNat - '0'.toNat)) 0

/-- Splits off an optional sign. -/
def takeSign : List Char → Bool × List Char
  | '-' :: r => (true, r)
  | '+' :: r => (false, r)
  | r => (false, r)

/-- Reads the exponent part: nothing, or `e` with an optional sign and at least one digit. -/
def readExponent? : List Char → Option Int
  | [] => some 0
  | c :: r =>
    if c = 'e' || c = 'E' then
      let (negative, ds) := takeSign r
      if ds.isEmpty || !ds.all Char.isDigit then none
      else some (if negative then -(digitsValue ds : Int) else digitsValue ds)
    else none

/-- Reads an unsigned decimal: digits around an optional point, at least one of them, then an
optional exponent. -/
def readUnsigned? (negative : Bool) (cs : List Char) : Option Float :=
  let whole := cs.takeWhile Char.isDigit
  let afterWhole := cs.dropWhile Char.isDigit
  let (fraction, rest) :=
    match afterWhole with
    | '.' :: r => (r.takeWhile Char.isDigit, r.dropWhile Char.isDigit)
    | r => ([], r)
  if whole.isEmpty && fraction.isEmpty then none
  else do
    let exponent ← readExponent? rest
    some (toFloat negative (digitsValue (whole ++ fraction)) (exponent - fraction.length))

/-- Not a number. -/
def notANumber : Float := Float.ofBits 0x7ff8000000000000

/-- Reads a number: a decimal, or a word for infinity or not-a-number in any case, with an optional
sign. -/
def ofString? (s : String) : Option Float :=
  let (negative, cs) := takeSign s.toList
  let word := String.ofList (cs.map Char.toLower)
  if word = "inf" || word = "infinity" then some (if negative then -infinity else infinity)
  else if word = "nan" then some notANumber
  else readUnsigned? negative cs

end LiveConstraints.Decimal

import LiveConstraints.Decimal.Text
import LiveConstraints.Text.Scan
/-!
# Atoms of the configuration language

Text, keys, numbers and dates as version 1.0 of the format writes them. Digits may be grouped by
single underscores; integers have 64 bits; a decimal that is too large for a number is refused where
it is positive. Dates are checked against the calendar, but nothing reads them, so only their form
is kept.
-/

namespace LiveConstraints.Toml

open Scan

/-! ### Blanks -/

/-- A blank within a line. -/
def isBlank (c : Char) : Bool := c = ' ' || c = '\t'

/-- A character that may stand in text and comments: anything but control characters, of which only
the tabulator is allowed. -/
def isPlain (c : Char) : Bool := c = '\t' || (' ' ≤ c && c ≠ '\x7f')

/-- Blanks within a line. -/
def blanks : Scan Unit := do let _ ← takeWhile isBlank

/-- The end of a line. -/
def newline : Scan Unit := char '\n' <|> text "\r\n"

/-- A comment, up to the end of its line. -/
def comment : Scan Unit := do
  char '#'
  let _ ← takeWhile isPlain

/-- Blanks, line ends and comments. -/
def trivia : Scan Unit := do
  let blank : Scan Unit := do let _ ← satisfy isBlank
  let _ ← many (blank <|> newline <|> (comment *> newline))

/-- What may follow on a line after a header or an entry. -/
def lineEnd : Scan Unit := do
  blanks
  let _ ← optional comment
  newline <|> atEnd

/-! ### Text -/

/-- A hexadecimal digit. -/
def isHexDigit (c : Char) : Bool :=
  c.isDigit || ('a' ≤ c && c ≤ 'f') || ('A' ≤ c && c ≤ 'F')

/-- The value of a digit in a base up to sixteen. -/
def digitValue (c : Char) : Nat :=
  if c.isDigit then c.toNat - '0'.toNat else c.toLower.toNat - 'a'.toNat + 10

/-- The value of digits in a base. -/
def valueIn (base : Nat) (ds : List Char) : Nat := ds.foldl (fun n c => base * n + digitValue c) 0

/-- A character given by a fixed count of hexadecimal digits. -/
def codePoint (digits : Nat) : Scan Char := do
  let n := valueIn 16 (← exactly isHexDigit digits)
  if n.isValidChar then return Char.ofNat n else failure

/-- What follows the backslash of an escaped character. -/
def escaped : Scan Char := do
  match ← satisfy fun _ => true with
  | 'b' => return '\x08'
  | 't' => return '\t'
  | 'n' => return '\n'
  | 'f' => return '\x0c'
  | 'r' => return '\r'
  | '"' => return '"'
  | '\\' => return '\\'
  | 'u' => codePoint 4
  | 'U' => codePoint 8
  | _ => failure

/-- Text in double quotes on one line. -/
def basicText : Scan String := do
  char '"'
  let cs ← many (satisfy (fun c => isPlain c && c ≠ '"' && c ≠ '\\') <|> (char '\\' *> escaped))
  char '"'
  return String.ofList cs

/-- Text in single quotes on one line, in which nothing is escaped. -/
def literalText : Scan String := do
  char '\''
  let cs ← takeWhile fun c => isPlain c && c ≠ '\''
  char '\''
  return String.ofList cs

/-- The end of a line inside text is a newline, however it is written. -/
def innerNewline : Scan (List Char) := do
  newline
  return ['\n']

/-- A backslash at the end of a line takes the blanks and line ends after it away. -/
def continuation : Scan (List Char) := do
  char '\\'
  blanks
  newline
  let blank : Scan Unit := do let _ ← satisfy isBlank
  let _ ← many (blank <|> newline)
  return []

/-- The quotes that end text over several lines: three, after up to two that belong to the text. -/
def closing (quote : Char) : Scan (List Char) := do
  let three : Scan Unit := chars [quote, quote, quote]
  (chars [quote, quote] *> three *> pure [quote, quote])
    <|> (char quote *> three *> pure [quote])
    <|> (three *> pure [])

/-- One or two quotes inside text over several lines. -/
def innerQuotes (quote : Char) : Scan (List Char) := fun cs =>
  match closing quote cs with
  | some _ => none
  | none => (char quote *> pure [quote]) cs

/-- Text over several lines; a newline right after the opening quotes does not count. -/
def longText (quote : Char) (piece : Scan (List Char)) : Scan String := do
  chars [quote, quote, quote]
  let _ ← optional newline
  let body ← many (piece <|> innerNewline <|> innerQuotes quote)
  let last ← closing quote
  return String.ofList (body.flatten ++ last)

/-- Text in three double quotes. -/
def basicLongText : Scan String :=
  longText '"' ((do return [← satisfy fun c => isPlain c && c ≠ '"' && c ≠ '\\'])
    <|> continuation
    <|> (do return [← char '\\' *> escaped]))

/-- Text in three single quotes, in which nothing is escaped. -/
def literalLongText : Scan String :=
  longText '\'' (do return [← satisfy fun c => isPlain c && c ≠ '\''])

/-- Text in any of the four notations. -/
def anyText : Scan String := basicLongText <|> literalLongText <|> basicText <|> literalText

/-! ### Keys -/

/-- A character of a key that needs no quotes. -/
def isKeyChar (c : Char) : Bool := c.isAlphanum || c = '_' || c = '-'

/-- One part of a key. -/
def simpleKey : Scan String :=
  basicText <|> literalText <|> (do return String.ofList (← takeWhile1 isKeyChar))

/-- How deeply tables and arrays may be nested, also by the parts of one key. -/
def nestingLimit : Nat := 79

/-- A key, whose parts are separated by points. -/
def dottedKey : Scan (List String) := do
  let parts ← separated (blanks *> simpleKey <* blanks) (char '.')
  if parts.length ≤ nestingLimit then return parts else failure

/-! ### Numbers -/

/-- Digits of a class in groups, the first one taken already. -/
def groupedAfter (p : Char → Bool) (first : Char) : Scan (List Char) := do
  let more ← many (optional (char '_') *> satisfy p)
  return first :: more

/-- Digits of a class, single underscores between any two of them left out. -/
def grouped (p : Char → Bool) : Scan (List Char) := do groupedAfter p (← satisfy p)

/-- A sign; whether it is negative. -/
def sign : Scan Bool :=
  (char '-' *> pure true) <|> (char '+' *> pure false) <|> pure false

/-- Decimal digits without a leading zero. -/
def wholeDigits : Scan (List Char) :=
  (do groupedAfter Char.isDigit (← satisfy fun c => c.isDigit && c ≠ '0'))
    <|> (char '0' *> pure ['0'])

/-- An integer that fits into 64 bits. -/
def bounded (i : Int) : Scan Int :=
  if -9223372036854775808 ≤ i && i ≤ 9223372036854775807 then return i else failure

/-- Digits in another base than ten, behind the letter of the base. -/
def basedInteger (letter : Char) (base : Nat) : Scan Int := do
  chars ['0', letter]
  let ds ← grouped fun c => isHexDigit c && digitValue c < base
  bounded (valueIn base ds)

/-- An integer. -/
def integer : Scan Int :=
  basedInteger 'x' 16 <|> basedInteger 'o' 8 <|> basedInteger 'b' 2 <|> do
    let negative ← sign
    let n : Int := valueIn 10 (← wholeDigits)
    bounded (if negative then -n else n)

/-- The exponent of a decimal. -/
def exponent : Scan (List Char) := do
  let _ ← satisfy fun c => c = 'e' || c = 'E'
  let negative ← sign
  let ds ← grouped Char.isDigit
  return (if negative then ['e', '-'] else ['e']) ++ ds

/-- The places of a decimal. -/
def fraction : Scan (List Char) := do
  char '.'
  return '.' :: (← grouped Char.isDigit)

/-- What makes digits a decimal: places, an exponent or both. -/
def decimalTail : Scan (List Char) :=
  exponent <|> do
    let places ← fraction
    return places ++ (← optional exponent).getD []

/-- A decimal. -/
def decimal : Scan Float := do
  let negative ← sign
  let whole ← wholeDigits
  let tail ← decimalTail
  match Decimal.ofString? (String.ofList ((if negative then ['-'] else []) ++ whole ++ tail)) with
  | some x => if x == Decimal.infinity then failure else return x
  | none => failure

/-- Infinity or not-a-number. -/
def special : Scan Float := do
  let negative ← sign
  (text "inf" *> pure (if negative then -Decimal.infinity else Decimal.infinity))
    <|> (text "nan" *> pure Decimal.notANumber)

/-- A number that is not an integer. -/
def float : Scan Float := decimal <|> special

/-! ### Dates and times -/

/-- A number of a fixed count of digits in a range. -/
def fixedDigits (count least most : Nat) : Scan Nat := do
  let n := valueIn 10 (← exactly Char.isDigit count)
  if least ≤ n && n ≤ most then return n else failure

/-- How many days a month has. -/
def daysIn (year month : Nat) : Nat :=
  if month = 2 then
    if year % 4 = 0 && (year % 100 ≠ 0 || year % 400 = 0) then 29 else 28
  else if month = 4 || month = 6 || month = 9 || month = 11 then 30
  else 31

/-- A day of the calendar. -/
def date : Scan Unit := do
  let year ← fixedDigits 4 0 9999
  char '-'
  let month ← fixedDigits 2 1 12
  char '-'
  let _ ← fixedDigits 2 1 (daysIn year month)

/-- A time of the day; the last minute may have a leap second. -/
def time : Scan Unit := do
  let _ ← fixedDigits 2 0 23
  char ':'
  let _ ← fixedDigits 2 0 59
  char ':'
  let _ ← fixedDigits 2 0 60
  let _ ← optional (char '.' *> takeWhile1 Char.isDigit)

/-- A distance from universal time. -/
def offset : Scan Unit :=
  char 'Z' <|> char 'z' <|> do
    let _ ← satisfy fun c => c = '+' || c = '-'
    let _ ← fixedDigits 2 0 23
    char ':'
    let _ ← fixedDigits 2 0 59

/-- A date, a time or both. -/
def moment : Scan Unit :=
  (do
    date
    let _ ← optional do
      char 'T' <|> char 't' <|> char ' '
      time
      let _ ← optional offset)
  <|> time

end LiveConstraints.Toml

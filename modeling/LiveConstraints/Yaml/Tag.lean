import LiveConstraints.Yaml.Cursor
/-!
# Tags

A tag says what a node is. It begins with a handle that stands for the beginning of a longer tag, or
it is written out in angle brackets. Characters may be escaped as their bytes, each a percent sign
with two hexadecimal digits. What the bytes make need not be text, so a tag is kept as its bytes; it
ends at the first null byte.
-/

namespace LiveConstraints.Yaml

/-- The bytes of a tag. -/
abbrev Tag := List UInt8

namespace Tag

/-- The tag that a text is. -/
def ofString (s : String) : Tag := s.toUTF8.toList

/-- The part of a tag before its first null byte. -/
def beforeNull (t : Tag) : Tag := t.takeWhile (· ≠ 0)

/-- The name in a tag of the document's own, which begins with an exclamation mark. -/
def ownName? : Tag → Option String
  | 0x21 :: name => String.fromUTF8? ⟨name.toArray⟩
  | _ => none

end Tag

/-! ### Characters -/

/-- The value of a hexadecimal digit. -/
def hexDigit? (x : Char) : Option Nat :=
  if x.isDigit then some (x.toNat - '0'.toNat)
  else if 'a' ≤ x && x ≤ 'f' then some (x.toNat - 'a'.toNat + 10)
  else if 'A' ≤ x && x ≤ 'F' then some (x.toNat - 'A'.toNat + 10)
  else none

/-- A character of an anchor or of a tag's handle. -/
def isNameChar (x : Char) : Bool := x.isAlphanum || x = '_' || x = '-'

/-- A character of a tag. In angle brackets the marks of flow collections are allowed too. -/
def isTagChar (inAngles : Bool) (x : Char) : Bool :=
  isNameChar x || ";/?:@&=+$.!~*'()%".toList.contains x || (inAngles && ",[]".toList.contains x)

/-! ### Escapes -/

/-- The byte of an escape. -/
def escapedByte? (c : Cursor) : Option (UInt8 × Cursor) := do
  if !c.isAt '%' then none
  let high ← hexDigit? (← c.peekAt? 1)
  let low ← hexDigit? (← c.peekAt? 2)
  return (UInt8.ofNat (16 * high + low), c.skipMany 3)

/-- How many bytes follow the first byte of a character. -/
def followers? (first : UInt8) : Option Nat :=
  if first < 0x80 then some 0
  else if first < 0xc0 then none
  else if first < 0xe0 then some 1
  else if first < 0xf0 then some 2
  else if first < 0xf8 then some 3
  else none

/-- A given count of escaped bytes that may follow a first one. -/
def followingBytes? : Nat → Cursor → Option (Tag × Cursor)
  | 0, c => some ([], c)
  | n + 1, c => do
    let (b, c) ← escapedByte? c
    if b < 0x80 || 0xc0 ≤ b then none
    let (bs, c) ← followingBytes? n c
    return (b :: bs, c)

/-- The bytes of an escaped character. -/
def escapedChar? (c : Cursor) : Option (Tag × Cursor) := do
  let (b, c) ← escapedByte? c
  let (bs, c) ← followingBytes? (← followers? b) c
  return (b :: bs, c)

/-! ### Handles and texts -/

/-- The longest text of a tag, at most `n` characters. -/
def tagText? (inAngles : Bool) : Nat → Cursor → Option (Tag × Cursor)
  | 0, c => some ([], c)
  | n + 1, c =>
    match c.peek? with
    | none => some ([], c)
    | some x =>
      if x = '%' then do
        let (bytes, c) ← escapedChar? c
        let (more, c) ← tagText? inAngles n c
        return (bytes ++ more, c)
      else if isTagChar inAngles x then do
        let (more, c) ← tagText? inAngles n c.skip
        return (UInt8.ofNat x.toNat :: more, c)
      else some ([], c)

/-- The longest text of a tag, which is not empty. -/
def tagText1? (inAngles : Bool) (c : Cursor) : Option (Tag × Cursor) := do
  let (text, c) ← tagText? inAngles c.rest.length c
  if text.isEmpty then none else some (text.beforeNull, c)

/-- The handle that begins here: everything from one exclamation mark to the next. -/
def tagHandle? (c : Cursor) : Option (String × Cursor) :=
  let name := (c.rest.drop 1).takeWhile isNameChar
  if c.isAt '!' && c.peekAt? (name.length + 1) == some '!' then
    some (String.ofList ('!' :: name ++ ['!']), c.skipMany (name.length + 2))
  else none

/-- A tag as its handle and the rest; a tag in angle brackets has no handle, and neither has an
exclamation mark alone. -/
def tagParts? (c : Cursor) : Option (String × Tag × Cursor) :=
  if c.peekAt? 1 == some '<' then do
    let (text, c) ← tagText1? true (c.skipMany 2)
    if c.isAt '>' then some ("", text, c.skip) else none
  else
    match tagHandle? c with
    | some (handle, c) => do
      let (text, c) ← tagText1? false c
      return (handle, text, c)
    | none => do
      let (text, c) ← tagText? false c.rest.length c.skip
      let text := text.beforeNull
      return if text.isEmpty then ("", Tag.ofString "!", c) else ("!", text, c)

end LiveConstraints.Yaml

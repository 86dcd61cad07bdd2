/-!
# Places in a text

A cursor is the text that is left with the line, the column and the count of bytes before it.
Indentation is judged by columns, which are characters, and the length of keys by bytes. Line ends
are newline, carriage return, both as one, and the three line ends that Unicode adds.
-/

namespace LiveConstraints.Yaml

/-- A character that ends a line. -/
def isBreak (c : Char) : Bool :=
  c = '\n' || c = '\r' || c = '\u0085' || c = '\u2028' || c = '\u2029'

/-- A blank within a line. -/
def isBlank (c : Char) : Bool := c = ' ' || c = '\t'

/-- A character that may stand in a document. -/
def isAllowed (c : Char) : Bool :=
  let n := c.toNat
  n = 0x09 || n = 0x0a || n = 0x0d || (0x20 ≤ n && n ≤ 0x7e) || n = 0x85
    || (0xa0 ≤ n && n ≤ 0xfffd) || 0x10000 ≤ n

/-- A place in a text. -/
structure Cursor where
  /-- The text that is left. -/
  rest : List Char
  /-- How many bytes are before it. -/
  index : Nat := 0
  /-- How many line ends are before it. -/
  line : Nat := 0
  /-- How many characters of its line are before it. -/
  column : Nat := 0

namespace Cursor

/-- The next character. -/
def peek? (c : Cursor) : Option Char := c.rest.head?

/-- The character after a given count of others. -/
def peekAt? (c : Cursor) (n : Nat) : Option Char := c.rest[n]?

/-- Whether a given character is next. -/
def isAt (c : Cursor) (x : Char) : Bool := c.peek? == some x

/-- Whether the character after a given count of others is a blank, a line end or missing. -/
def blankOrEndAt (c : Cursor) (n : Nat) : Bool :=
  match c.peekAt? n with
  | none => true
  | some x => isBlank x || isBreak x

/-- Whether a blank or a line end is next. -/
def atGap (c : Cursor) : Bool := c.peek?.any fun x => isBlank x || isBreak x

/-- Whether the line or the text ends here. -/
def atLineEnd (c : Cursor) : Bool := c.peek?.all isBreak

/-- Passes over one character of a line. -/
def skip (c : Cursor) : Cursor :=
  match c.rest with
  | [] => c
  | x :: rest => { c with rest, index := c.index + x.utf8Size, column := c.column + 1 }

/-- Passes over some characters of a line. -/
def skipMany : Nat → Cursor → Cursor
  | 0, c => c
  | n + 1, c => skipMany n c.skip

/-- Passes over the characters of a class in one line. -/
def skipWhile (p : Char → Bool) (c : Cursor) : Cursor :=
  skipMany (c.rest.takeWhile fun x => p x && !isBreak x).length c

/-- Passes over a line end; the character that stands for it. All but the Unicode separators stand
for a newline. -/
def takeBreak (c : Cursor) : List Char × Cursor :=
  let next (n : Nat) : Cursor :=
    { rest := c.rest.drop n
      index := c.index + (c.rest.take n).foldl (fun size x => size + x.utf8Size) 0
      line := c.line + 1
      column := 0 }
  match c.rest with
  | '\r' :: '\n' :: _ => (['\n'], next 2)
  | '\u2028' :: _ => (['\u2028'], next 1)
  | '\u2029' :: _ => (['\u2029'], next 1)
  | x :: _ => if isBreak x then (['\n'], next 1) else ([], c)
  | [] => ([], c)

/-- Whether a line of three equal characters begins here that ends or begins a document. -/
def atMark (c : Cursor) (x : Char) : Bool :=
  c.column = 0 && c.rest.take 3 == [x, x, x] && c.blankOrEndAt 3

/-- Whether a document begins or ends here. -/
def atDocumentMark (c : Cursor) : Bool := c.atMark '-' || c.atMark '.'

end Cursor

/-! ### Gaps between pieces of text -/

/-- The blanks and line ends between two pieces of a text. -/
structure Gap where
  /-- The blanks before the first line end. -/
  blanks : List Char := []
  /-- The line ends; blanks between them do not count. -/
  breaks : List Char := []
  /-- Whether an escaped line end came first. -/
  escaped : Bool := false

namespace Gap

/-- Whether the gap goes over a line end. -/
def isFolded (g : Gap) : Bool := g.escaped || !g.breaks.isEmpty

/-- What the gap stands for: a single newline for a space, more of them for the others, and blanks
within a line for themselves. -/
def render (g : Gap) : List Char :=
  if g.escaped then g.breaks
  else
    match g.breaks with
    | [] => g.blanks
    | '\n' :: [] => [' ']
    | '\n' :: more => more
    | others => others

end Gap

/-- Passes over a gap of at most `n` characters. In front of a line's text a tabulator may not stand
left of a given column. -/
def takeGap (floor : Nat) : Nat → Gap → Cursor → Option (Gap × Cursor)
  | 0, g, c => some (g, c)
  | n + 1, g, c =>
    match c.peek? with
    | none => some (g, c)
    | some x =>
      if isBlank x then
        if g.isFolded then
          if c.column < floor && x = '\t' then none else takeGap floor n g c.skip
        else takeGap floor n { g with blanks := g.blanks ++ [x] } c.skip
      else if isBreak x then
        let (b, c) := c.takeBreak
        takeGap floor n { g with blanks := [], breaks := g.breaks ++ b } c
      else some (g, c)

end LiveConstraints.Yaml

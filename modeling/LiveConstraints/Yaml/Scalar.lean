import LiveConstraints.Yaml.Tag
/-!
# Scalars

The forms of a text: plain, in quotes, and as an indented block. A scalar remembers its form and its
tag, since these decide whether it may stand for a number or a boolean.
-/

namespace LiveConstraints.Yaml

/-- How a scalar is written. -/
inductive Form where
  /-- Without any mark. -/
  | plain
  /-- In single or double quotes. -/
  | quoted
  /-- As a block whose line ends count. -/
  | literal
  /-- As a block whose lines are joined. -/
  | folded
  deriving DecidableEq, Repr

/-- A text of a document. -/
structure Scalar where
  /-- The text. -/
  text : String
  /-- How it is written. -/
  form : Form := .plain
  /-- Its tag, if it has one. -/
  tag : Option Tag := none

/-- What is written as nothing at all. -/
def Scalar.empty : Scalar := { text := "" }

/-! ### Plain scalars -/

/-- A character that ends or separates items inside brackets. -/
def isFlowMark (x : Char) : Bool := x = ',' || x = '[' || x = ']' || x = '\x7b' || x = '\x7d'

/-- Whether a plain scalar ends in front of the next character: at a colon before a blank, and
inside brackets at a character that has a meaning there. -/
def endsPlain (inFlow : Bool) (c : Cursor) : Bool :=
  match c.peek? with
  | none => true
  | some x => (x = ':' && c.blankOrEndAt 1) || (inFlow && isFlowMark x)

/-- Whether a colon stands where it is neither text nor a mark: inside brackets, right before one of
their marks. -/
def misplacedColon (inFlow : Bool) (c : Cursor) : Bool :=
  inFlow && c.isAt ':' && (c.peekAt? 1).any fun x => isFlowMark x || x = '?'

/-- The longest piece of a plain scalar without blanks, at most `n` characters. -/
def plainPiece (inFlow : Bool) : Nat → Cursor → Option (List Char × Cursor)
  | 0, c => some ([], c)
  | n + 1, c =>
    match c.peek? with
    | none => some ([], c)
    | some x =>
      if isBlank x || isBreak x then some ([], c)
      else if misplacedColon inFlow c then none
      else if endsPlain inFlow c then some ([], c)
      else do
        let (piece, c) ← plainPiece inFlow n c.skip
        return (x :: piece, c)

/-- The rest of a plain scalar behind a gap, at most `n` characters. Outside brackets it goes on as
long as its lines are indented to a given column. The answer's flag tells whether it ended behind a
line end. -/
def plainFrom (inFlow : Bool) (floor : Nat) :
    Nat → Gap → Cursor → Option (List Char × Bool × Cursor)
  | 0, gap, c => some ([], gap.isFolded, c)
  | n + 1, gap, c =>
    if c.atDocumentMark || c.isAt '#' then some ([], gap.isFolded, c)
    else do
      let (piece, c) ← plainPiece inFlow n c
      let (text, gap) := if piece.isEmpty then ([], gap) else (gap.render ++ piece, {})
      if !c.atGap then return (text, gap.isFolded, c)
      let (gap, c) ← takeGap floor n gap c
      if !inFlow && c.column < floor then return (text, gap.isFolded, c)
      let (more, folded, c) ← plainFrom inFlow floor n gap c
      return (text ++ more, folded, c)

/-- A plain scalar. -/
def plainScalar (inFlow : Bool) (floor : Nat) (c : Cursor) : Option (Scalar × Bool × Cursor) := do
  let (text, folded, c) ← plainFrom inFlow floor (c.rest.length + 1) {} c
  return ({ text := String.ofList text }, folded, c)

/-! ### Quoted scalars -/

/-- The character that stands for a letter behind a backslash. -/
def escapedLetter? : Char → Option Char
  | '0' => some '\x00'
  | 'a' => some '\x07'
  | 'b' => some '\x08'
  | 't' => some '\t'
  | '\t' => some '\t'
  | 'n' => some '\n'
  | 'v' => some '\x0b'
  | 'f' => some '\x0c'
  | 'r' => some '\r'
  | 'e' => some '\x1b'
  | ' ' => some ' '
  | '"' => some '"'
  | '/' => some '/'
  | '\\' => some '\\'
  | 'N' => some '\u0085'
  | '_' => some '\u00a0'
  | 'L' => some '\u2028'
  | 'P' => some '\u2029'
  | _ => none

/-- How many hexadecimal digits follow a letter behind a backslash. -/
def codeLength? : Char → Option Nat
  | 'x' => some 2
  | 'u' => some 4
  | 'U' => some 8
  | _ => none

/-- A character given by a fixed count of hexadecimal digits. -/
def codePoint? (count : Nat) (c : Cursor) : Option (Char × Cursor) := do
  let digits := c.rest.take count
  if digits.length < count then none
  let n := (← digits.mapM hexDigit?).foldl (fun n d => 16 * n + d) 0
  if n.isValidChar then some (Char.ofNat n, c.skipMany count) else none

/-- A character behind a backslash. -/
def escape? (c : Cursor) : Option (Char × Cursor) := do
  let x ← c.peek?
  match escapedLetter? x with
  | some y => return (y, c.skip)
  | none => codePoint? (← codeLength? x) c.skip

/-- The longest piece of a quoted scalar without blanks, at most `n` characters, with the gap that
an escaped line end begins. -/
def quotedPiece (quote : Char) : Nat → Cursor → Option (List Char × Gap × Cursor)
  | 0, c => some ([], {}, c)
  | n + 1, c =>
    match c.peek? with
    | none => some ([], {}, c)
    | some x =>
      if isBlank x || isBreak x then some ([], {}, c)
      else if x = quote then
        if quote = '\'' && c.peekAt? 1 == some '\'' then do
          let (piece, gap, c) ← quotedPiece quote n (c.skipMany 2)
          return ('\'' :: piece, gap, c)
        else some ([], {}, c)
      else if quote = '"' && x = '\\' then
        if (c.peekAt? 1).any isBreak then
          let (_, c) := c.skip.takeBreak
          some ([], { escaped := true }, c)
        else do
          let (y, c) ← escape? c.skip
          let (piece, gap, c) ← quotedPiece quote n c
          return (y :: piece, gap, c)
      else do
        let (piece, gap, c) ← quotedPiece quote n c.skip
        return (x :: piece, gap, c)

/-- The rest of a quoted scalar up to its closing quote, at most `n` characters. -/
def quotedFrom (quote : Char) : Nat → Cursor → Option (List Char × Cursor)
  | 0, _ => none
  | n + 1, c =>
    if c.atDocumentMark || c.rest.isEmpty then none
    else do
      let (piece, gap, c) ← quotedPiece quote n c
      if c.isAt quote then return (piece, c.skip)
      let (gap, c) ← takeGap 0 n gap c
      let (more, c) ← quotedFrom quote n c
      return (piece ++ gap.render ++ more, c)

/-- A quoted scalar. -/
def quotedScalar (quote : Char) (c : Cursor) : Option (Scalar × Cursor) := do
  let (text, c) ← quotedFrom quote (c.rest.length + 1) c.skip
  return ({ text := String.ofList text, form := .quoted }, c)

/-! ### Blocks -/

/-- What becomes of the line ends after a block. -/
inductive Chomping where
  /-- All are dropped. -/
  | strip
  /-- The first one is kept. -/
  | clip
  /-- All are kept. -/
  | keep
  deriving DecidableEq, Repr

/-- The mark for a way of chomping. -/
def chomping? : Char → Option Chomping
  | '-' => some .strip
  | '+' => some .keep
  | _ => none

/-- The digit for an indentation, which cannot be zero. -/
def indentation? (x : Char) : Option Nat :=
  if '1' ≤ x && x ≤ '9' then some (x.toNat - '0'.toNat) else none

/-- The marks behind the sign of a block, in either order. -/
def blockHeader (c : Cursor) : Chomping × Option Nat × Cursor :=
  match c.peek?.bind chomping? with
  | some chomping =>
    match (c.peekAt? 1).bind indentation? with
    | some n => (chomping, some n, c.skipMany 2)
    | none => (chomping, none, c.skip)
  | none =>
    match c.peek?.bind indentation? with
    | some n =>
      match (c.peekAt? 1).bind chomping? with
      | some chomping => (chomping, some n, c.skipMany 2)
      | none => (.clip, some n, c.skip)
    | none => (.clip, none, c)

/-- The empty lines before the text of a block, at most `n`; also the widest of them. Indentation
that is not known yet is taken in whole. A tabulator may not stand in it. -/
def emptyLines (indent : Option Nat) :
    Nat → List Char → Nat → Cursor → Option (List Char × Nat × Cursor)
  | 0, breaks, widest, c => some (breaks, widest, c)
  | n + 1, breaks, widest, c =>
    let within (column : Nat) : Bool := indent.all (column < ·)
    let room := match indent with
      | some k => k - c.column
      | none => c.rest.length
    let spaces := ((c.rest.take room).takeWhile (· = ' ')).length
    let c := c.skipMany spaces
    let widest := max widest c.column
    if within c.column && c.isAt '\t' then none
    else if c.peek?.any isBreak then
      let (b, c) := c.takeBreak
      emptyLines indent n (breaks ++ b) widest c
    else some (breaks, widest, c)

/-- What is carried from one line of a block to the next. -/
structure BlockState where
  /-- The end of the last line. -/
  lastBreak : List Char := []
  /-- The ends of the empty lines after it. -/
  breaks : List Char := []
  /-- Whether the last line began with a blank. -/
  indented : Bool := false

/-- The lines of a block, at most `n`, and what is carried from the last of them. In a folded block
a single line end between two lines that do not begin with a blank is a space. -/
def blockLines (fold : Bool) (indent : Nat) :
    Nat → BlockState → Cursor → Option (List Char × BlockState × Cursor)
  | 0, s, c => some ([], s, c)
  | n + 1, s, c =>
    if c.column = indent && !c.rest.isEmpty then do
      let blank := c.peek?.any isBlank
      let joined := fold && s.lastBreak == ['\n'] && !s.indented && !blank
      let glue := if joined then (if s.breaks.isEmpty then [' '] else []) else s.lastBreak
      let line := c.rest.takeWhile fun x => !isBreak x
      let (lastBreak, c) := (c.skipMany line.length).takeBreak
      let (breaks, _, c) ← emptyLines (some indent) n [] 0 c
      let (more, last, c) ← blockLines fold indent n { lastBreak, breaks, indented := blank } c
      return (glue ++ s.breaks ++ line ++ more, last, c)
    else some ([], s, c)

/-- A block scalar in a collection that is indented to a given column, or in none. -/
def blockScalar (fold : Bool) (outer : Option Nat) (c : Cursor) : Option (Scalar × Cursor) := do
  let (chomping, given, c) := blockHeader c.skip
  let c := c.skipWhile isBlank
  let c := if c.isAt '#' then c.skipWhile fun _ => true else c
  if !c.atLineEnd then none
  let (_, c) := c.takeBreak
  let indent := given.map fun n => outer.getD 0 + n
  let (breaks, widest, c) ← emptyLines indent (c.rest.length + 1) [] 0 c
  let least := match outer with
    | some k => k + 1
    | none => 1
  let indent := indent.getD (max widest least)
  let (text, s, c) ← blockLines fold indent (c.rest.length + 1) { breaks } c
  let tail := match chomping with
    | .strip => []
    | .clip => s.lastBreak
    | .keep => s.lastBreak ++ s.breaks
  let form := if fold then Form.folded else .literal
  return ({ text := String.ofList (text ++ tail), form }, c)

end LiveConstraints.Yaml

import LiveConstraints.Yaml.Scalar
/-!
# Tokens

The marks and scalars of a document in order. Indentation appears as tokens too: the start of a
block collection where a column is opened, and its end where the text returns to the left of it.

A mapping key is recognized only when its colon is met. So every token that could begin a key is
remembered as a `KeyCandidate`, one for each level of brackets, and the colon puts the key token,
and the start of the mapping if it opens one, in front of it. A key has to end on the line it begins
on and within 1024 bytes.
-/

namespace LiveConstraints.Yaml

/-- A piece of a document. -/
inductive Token where
  /-- Announces the version of the format. -/
  | version
  /-- Declares what a tag handle stands for. -/
  | tagHandle (handle : String) (expansion : Tag)
  /-- The mark that begins a document. -/
  | documentStart
  /-- The mark that ends a document. -/
  | documentEnd
  /-- A column of items begins. -/
  | blockSequenceStart
  /-- A column of keys begins. -/
  | blockMappingStart
  /-- A column ends. -/
  | blockEnd
  /-- An opening square bracket. -/
  | flowSequenceStart
  /-- A closing square bracket. -/
  | flowSequenceEnd
  /-- An opening brace. -/
  | flowMappingStart
  /-- A closing brace. -/
  | flowMappingEnd
  /-- The dash in front of an item. -/
  | blockEntry
  /-- The comma between items. -/
  | flowEntry
  /-- A key follows. -/
  | key
  /-- The colon in front of a value. -/
  | value
  /-- A reference to an anchored node. -/
  | alias (name : String)
  /-- The anchor of the node that follows. -/
  | anchor (name : String)
  /-- The tag of the node that follows. -/
  | tag (handle : String) (suffix : Tag)
  /-- A scalar. -/
  | scalar (s : Scalar)
  deriving Inhabited

/-- A token that will have been a key if a colon follows. -/
structure KeyCandidate where
  /-- How many tokens come before it. -/
  position : Nat
  /-- Where it begins. -/
  start : Cursor
  /-- Whether it stands where nothing but a key may. -/
  required : Bool

/-- What is known in the middle of a document. -/
structure Lexer where
  /-- Where the next token is looked for. -/
  cursor : Cursor
  /-- The tokens so far. -/
  tokens : Array Token := #[]
  /-- The column of the innermost open block collection. -/
  indent : Option Nat := none
  /-- The columns around it, the innermost first. -/
  outer : List (Option Nat) := []
  /-- Whether a key may begin at the next token. -/
  keyAllowed : Bool := true
  /-- The candidate of the innermost level of brackets. -/
  candidate : Option KeyCandidate := none
  /-- The candidates of the levels around it, the innermost first. -/
  outerCandidates : List (Option KeyCandidate) := []

/-- A computation that takes tokens; it fails where the document is malformed. -/
abbrev Lex := StateT Lexer Option

namespace Lex

/-- Whether the cursor is inside brackets. -/
def inFlow : Lex Bool := do return !(← get).outerCandidates.isEmpty

/-- Moves the cursor. -/
def moveTo (c : Cursor) : Lex Unit := modify fun s => { s with cursor := c }

/-- Adds a token. -/
def emit (t : Token) : Lex Unit := modify fun s => { s with tokens := s.tokens.push t }

/-- Puts a token in front of those that follow a position. -/
def insertAt (position : Nat) (t : Token) : Lex Unit := modify fun s =>
  { s with tokens := s.tokens.insertIdxIfInBounds position t }

/-- Says whether a key may begin at the next token. -/
def allowKey (on : Bool) : Lex Unit := modify fun s => { s with keyAllowed := on }

/-- Gives up the candidate of the innermost level, which must not be required. -/
def dropCandidate : Lex Unit := do
  if (← get).candidate.any KeyCandidate.required then failure
  modify fun s => { s with candidate := none }

/-- Remembers the token that begins here as a candidate, if a key may begin here. -/
def saveCandidate : Lex Unit := do
  let s ← get
  if s.keyAllowed then
    dropCandidate
    let required := !(← inFlow) && s.indent == some s.cursor.column
    modify fun s => { s with candidate := some ⟨s.tokens.size, s.cursor, required⟩ }

/-- Whether a candidate is too far back to be a key. -/
def isStale (here : Cursor) (k : KeyCandidate) : Bool :=
  k.start.line < here.line || k.start.index + 1024 < here.index

/-- Gives up the candidates that are too far back, none of which may be required. -/
def dropStale : Lex Unit := do
  let s ← get
  let stale (k : KeyCandidate) : Bool := isStale s.cursor k
  if (s.candidate :: s.outerCandidates).any fun k => k.any fun k => stale k && k.required then
    failure
  let fresh (k : Option KeyCandidate) : Option KeyCandidate := k.filter fun k => !stale k
  set { s with candidate := fresh s.candidate, outerCandidates := s.outerCandidates.map fresh }

/-- Opens a block collection at a column, if that is to the right of the innermost one; the token
that starts it goes to a position. -/
def openBlock (column position : Nat) (start : Token) : Lex Unit := do
  let s ← get
  if s.outerCandidates.isEmpty && s.indent.all (· < column) then
    set { s with indent := some column, outer := s.indent :: s.outer }
    insertAt position start

/-- Closes the block collections that lie to the right of a column, or all of them, at most `n`. -/
def closeBlocks (column : Option Nat) : Nat → Lex Unit
  | 0 => return ()
  | n + 1 => do
    let s ← get
    match s.indent with
    | none => return ()
    | some k =>
      if column.all (· < k) then
        set { s with indent := s.outer.head?.join, outer := s.outer.drop 1 }
        emit .blockEnd
        closeBlocks column n

/-- Closes the block collections that lie to the right of a column, or all of them. Inside brackets
none are. -/
def returnTo (column : Option Nat) : Lex Unit := do
  let s ← get
  if s.outerCandidates.isEmpty then closeBlocks column s.outer.length

/-! ### Between tokens -/

/-- Passes over blanks, comments and line ends, at most `n` lines. Tabulators count as blanks only
where no key may begin. A byte order mark at the beginning of the text takes a column. -/
def skipSpace : Nat → Lex Unit
  | 0 => return ()
  | n + 1 => do
    let s ← get
    let c := s.cursor
    let c := if c.index = 0 && c.isAt '\ufeff' then c.skip else c
    let tabs := !s.outerCandidates.isEmpty || !s.keyAllowed
    let c := c.skipWhile fun x => x = ' ' || (tabs && x = '\t')
    let c := if c.isAt '#' then c.skipWhile fun _ => true else c
    if c.peek?.any isBreak then
      moveTo c.takeBreak.2
      if s.outerCandidates.isEmpty then allowKey true
      skipSpace n
    else moveTo c

/-! ### Tokens of one kind -/

/-- Takes a token of some characters that drops the candidate; a flag says if a key may follow. -/
def takeMark (length : Nat) (keyFollows : Bool) (t : Token) : Lex Unit := do
  dropCandidate
  allowKey keyFollows
  modify fun s => { s with cursor := s.cursor.skipMany length }
  emit t

/-- Takes the mark at the beginning or end of a document. -/
def takeDocumentMark (t : Token) : Lex Unit := do
  returnTo none
  takeMark 3 false t

/-- Takes an opening bracket. -/
def openFlow (t : Token) : Lex Unit := do
  saveCandidate
  modify fun s =>
    { s with
      outerCandidates := s.candidate :: s.outerCandidates
      candidate := none
      keyAllowed := true
      cursor := s.cursor.skip }
  emit t

/-- Takes a closing bracket. -/
def closeFlow (t : Token) : Lex Unit := do
  dropCandidate
  modify fun s =>
    match s.outerCandidates with
    | [] => s
    | k :: ks => { s with candidate := k, outerCandidates := ks }
  modify fun s => { s with keyAllowed := false, cursor := s.cursor.skip }
  emit t

/-- Opens a block collection for a mark at the cursor, where a key may begin. -/
def openBlockHere (start : Token) : Lex Unit := do
  if !(← inFlow) then
    let s ← get
    if !s.keyAllowed then failure
    openBlock s.cursor.column s.tokens.size start

/-- Takes the dash in front of an item. -/
def takeEntry : Lex Unit := do
  openBlockHere .blockSequenceStart
  takeMark 1 true .blockEntry

/-- Takes the question mark in front of a key. -/
def takeKey : Lex Unit := do
  openBlockHere .blockMappingStart
  takeMark 1 (!(← inFlow)) .key

/-- Takes the colon in front of a value: what was remembered as a candidate was a key. -/
def takeValue : Lex Unit := do
  match (← get).candidate with
  | some k =>
    insertAt k.position .key
    openBlock k.start.column k.position .blockMappingStart
    modify fun s => { s with candidate := none }
    allowKey false
  | none =>
    openBlockHere .blockMappingStart
    allowKey (!(← inFlow))
  modify fun s => { s with cursor := s.cursor.skip }
  emit .value

/-- Takes a token that could be a key. -/
def takeCandidate (scan : Cursor → Option (Token × Cursor)) : Lex Unit := do
  saveCandidate
  allowKey false
  let (t, c) ← (scan (← get).cursor : Option (Token × Cursor))
  moveTo c
  emit t

/-- Takes a plain scalar. Behind a line end a key may follow it. -/
def takePlain : Lex Unit := do
  saveCandidate
  allowKey false
  let s ← get
  let floor := match s.indent with
    | some k => k + 1
    | none => 0
  let (scalar, folded, c) ← (plainScalar (← inFlow) floor s.cursor : Option _)
  moveTo c
  if folded then allowKey true
  emit (.scalar scalar)

/-- Takes a block scalar. -/
def takeBlock (fold : Bool) : Lex Unit := do
  dropCandidate
  allowKey true
  let s ← get
  let (scalar, c) ← (blockScalar fold s.indent s.cursor : Option _)
  moveTo c
  emit (.scalar scalar)

end Lex

/-! ### Names and tags -/

/-- The name of an anchor or alias, behind its sign. -/
def anchorName? (c : Cursor) : Option (String × Cursor) :=
  let c := c.skip
  let name := c.rest.takeWhile isNameChar
  let after := c.skipMany name.length
  let ends := after.blankOrEndAt 0 || after.peek?.any fun x => "?:,]%@\x60\x7d".toList.contains x
  if name.isEmpty || !ends then none else some (String.ofList name, after)

/-- A tag, which a blank or line end has to follow; inside brackets a comma may. -/
def tag? (inFlow : Bool) (c : Cursor) : Option (Token × Cursor) := do
  let (handle, suffix, after) ← tagParts? c
  if after.blankOrEndAt 0 || (inFlow && after.isAt ',') then some (.tag handle suffix, after)
  else none

/-! ### Directives -/

/-- A number in a version, of at most nine digits. -/
def versionNumber? (c : Cursor) : Option (Nat × Cursor) :=
  let digits := c.rest.takeWhile Char.isDigit
  if digits.isEmpty || 9 < digits.length then none
  else some (digits.foldl (fun n d => 10 * n + (d.toNat - '0'.toNat)) 0, c.skipMany digits.length)

/-- The version of the format, which has to be 1.1 or 1.2. -/
def version? (c : Cursor) : Option (Token × Cursor) := do
  let (major, c) ← versionNumber? (c.skipWhile isBlank)
  if !c.isAt '.' then none
  let (minor, c) ← versionNumber? c.skip
  if major = 1 && (minor = 1 || minor = 2) then some (.version, c) else none

/-- A handle and what it stands for. A single exclamation mark is a handle here. -/
def handleExpansion? (c : Cursor) : Option (Token × Cursor) := do
  let c := c.skipWhile isBlank
  let (handle, c) ←
    match tagHandle? c with
    | some found => some found
    | none => if c.isAt '!' then some ("!", c.skip) else none
  if !c.peek?.any isBlank then none
  let (expansion, c) ← tagText1? true (c.skipWhile isBlank)
  if c.blankOrEndAt 0 then some (.tagHandle handle expansion, c) else none

/-- A directive behind its sign. Nothing but a comment may follow it on its line. -/
def directive? (c : Cursor) : Option (Token × Cursor) := do
  let name := c.rest.takeWhile isNameChar
  let c := c.skipMany name.length
  if !c.blankOrEndAt 0 then none
  let (t, c) ←
    if name == "YAML".toList then version? c
    else if name == "TAG".toList then handleExpansion? c
    else none
  let c := c.skipWhile isBlank
  let c := if c.isAt '#' then c.skipWhile fun _ => true else c
  if c.atLineEnd then some (t, c.takeBreak.2) else none

/-- Takes a directive with its line. -/
def Lex.takeDirective : Lex Unit := do
  Lex.returnTo none
  Lex.dropCandidate
  Lex.allowKey false
  let (t, c) ← (directive? (← get).cursor.skip : Option (Token × Cursor))
  Lex.moveTo c
  Lex.emit t

/-! ### All tokens -/

/-- Whether a plain scalar begins here. -/
def startsPlain (inFlow : Bool) (c : Cursor) : Bool :=
  match c.peek? with
  | none => false
  | some x =>
    let mark := "-?:,[]#&*!|>'\"%@\x60\x7b\x7d".toList.contains x
    (!c.blankOrEndAt 0 && !mark)
      || (x = '-' && !(c.peekAt? 1).any isBlank)
      || (!inFlow && (x = '?' || x = ':') && !c.blankOrEndAt 1)

namespace Lex

/-- Takes the token that begins with a given character. -/
def takeToken (x : Char) : Lex Unit := do
  let c := (← get).cursor
  let flow ← inFlow
  let spaced := c.blankOrEndAt 1
  if c.column = 0 && x = '%' then takeDirective
  else if c.atMark '-' then takeDocumentMark .documentStart
  else if c.atMark '.' then takeDocumentMark .documentEnd
  else if x = '[' then openFlow .flowSequenceStart
  else if x = '\x7b' then openFlow .flowMappingStart
  else if x = ']' then closeFlow .flowSequenceEnd
  else if x = '\x7d' then closeFlow .flowMappingEnd
  else if x = ',' then takeMark 1 true .flowEntry
  else if x = '-' && spaced then takeEntry
  else if x = '?' && (flow || spaced) then takeKey
  else if x = ':' && (flow || spaced) then takeValue
  else if x = '*' then takeCandidate fun c => (anchorName? c).map fun (n, c) => (.alias n, c)
  else if x = '&' then takeCandidate fun c => (anchorName? c).map fun (n, c) => (.anchor n, c)
  else if x = '!' then takeCandidate (tag? flow)
  else if x = '|' && !flow then takeBlock false
  else if x = '>' && !flow then takeBlock true
  else if x = '\'' || x = '"' then
    takeCandidate fun c => (quotedScalar x c).map fun (s, c) => (.scalar s, c)
  else if startsPlain flow c then takePlain
  else failure

/-- Takes tokens up to the end of the text, at most `n`. -/
def takeAll : Nat → Lex Unit
  | 0 => failure
  | n + 1 => do
    skipSpace ((← get).cursor.rest.length + 1)
    dropStale
    let c := (← get).cursor
    returnTo (some c.column)
    match c.peek? with
    | none =>
      returnTo none
      dropCandidate
    | some x =>
      takeToken x
      takeAll n

end Lex

/-- The tokens of a text, unless it is malformed. -/
def tokens? (s : String) : Option (List Token) := do
  let cs := s.toList
  if !cs.all isAllowed then none
  let (_, s) ← (Lex.takeAll (cs.length + 1)).run { cursor := { rest := cs } }
  return s.tokens.toList

end LiveConstraints.Yaml

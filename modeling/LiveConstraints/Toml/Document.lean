import LiveConstraints.Toml.Node
/-!
# Documents

A document is a list of statements, one a line: headers, which say where the entries that follow
belong, and entries. `Document.read?` reads the statements and puts their entries together.
-/

namespace LiveConstraints.Toml

open Scan

/-- The place a key names: the tables on the way to it and the last part. -/
structure Place where
  /-- The tables on the way. -/
  parents : List String
  /-- The last part. -/
  key : String

/-- The place that the parts of a key name. -/
def Place.ofParts? (parts : List String) : Option Place :=
  parts.getLast?.map fun key => ⟨parts.dropLast, key⟩

/-- The parts of the key that names a place. -/
def Place.parts (p : Place) : List String := p.parents ++ [p.key]

/-- A key as the place it names. -/
def place : Scan Place := do
  match Place.ofParts? (← dottedKey) with
  | some p => return p
  | none => failure

/-! ### Values -/

/-- A value that holds no others. -/
def scalar : Scan Node :=
  (do return .text (← anyText))
    <|> (moment *> pure .moment)
    <|> (do return .float (← float))
    <|> (do return .integer (← integer))
    <|> (text "true" *> pure (.boolean true))
    <|> (text "false" *> pure (.boolean false))

/-- An array, which may go over several lines and may end in a comma. -/
def array (item : Scan Node) : Scan Node := do
  char '['
  let items ←
    (do
      let items ← separated (trivia *> item <* trivia) (char ',')
      let _ ← optional (char ',')
      return items)
    <|> pure []
  trivia
  char ']'
  return .array items

/-- An entry of a table. -/
def entry (item : Scan Node) : Scan (Place × Node) := do
  let p ← place
  char '='
  blanks
  return (p, ← item)

/-- A table on one line. -/
def inlineTable (item : Scan Node) : Scan Node := do
  char '\x7b'
  let entries ← separated (entry item <* blanks) (char ',') <|> (blanks *> pure [])
  char '\x7d'
  let assigned :=
    entries.foldlM (fun (table : Entries) (p, node) => table.assign p.parents p.key node) []
  match assigned with
  | some table => return .inline table
  | none => failure

/-- A value with at most `n` levels of arrays and tables in it. -/
def value : Nat → Scan Node
  | 0 => scalar
  | n + 1 => scalar <|> array (value n) <|> inlineTable (value n)

/-! ### Statements -/

/-- A line of a document. -/
inductive Statement where
  /-- The header of a table. -/
  | table (place : Place)
  /-- The header of one more of several tables. -/
  | next (place : Place)
  /-- An entry. -/
  | entry (place : Place) (node : Node)

/-- A statement with the rest of its line. -/
def statement : Scan Statement :=
  ((do
      text "[["
      let p ← place
      text "]]"
      return .next p)
    <|> (do
      char '['
      let p ← place
      char ']'
      return .table p)
    <|> (do
      let (p, node) ← entry (value nestingLimit)
      return .entry p node))
  <* lineEnd

/-- All statements of a document; a byte order mark may come first. -/
def statements : Scan (List Statement) := do
  let _ ← optional (char '\ufeff')
  let skip : Scan Unit := do
    trivia
    let _ ← optional (comment *> atEnd)
  skip
  many (statement <* skip)

namespace Document

/-- Applies a statement to the entries so far, under the path of the last header. -/
def step (state : List String × Entries) : Statement → Option (List String × Entries)
  | .table p => do return (p.parts, ← state.2.openTable p.parents p.key)
  | .next p => do return (p.parts, ← state.2.openNext p.parents p.key)
  | .entry p node => do
    let assign (_ : Making) (table : Entries) : Option Entries := table.assign p.parents p.key node
    return (state.1, ← state.2.within false assign state.1 .header)

/-- The entries of a document, unless it is malformed. -/
def read? (s : String) : Option Entries := do
  let all ← statements.run? s
  let (_, entries) ← all.foldlM step ([], [])
  return entries

end Document

end LiveConstraints.Toml

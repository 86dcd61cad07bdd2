import LiveConstraints.Yaml.Token
/-!
# Nodes

The tree that the tokens of a document describe. Where a node is left out an empty scalar stands for
it.

A reference keeps the number of an anchor and is followed only when it is read, so a node may refer
to one that it is part of. The number of an anchor is the count of the other names before it: a name
that is used again gets a number of its own, but the next new name shares that. A reference means
the name's last anchor before it, and of the nodes with that anchor's number the one that begins
last, even behind the reference.
-/

namespace LiveConstraints.Yaml

/-- A node of a document. -/
inductive Node where
  /-- A text. -/
  | scalar (s : Scalar)
  /-- A list of nodes. -/
  | sequence (items : List Node)
  /-- A list of keys with their values. -/
  | mapping (entries : List (Node × Node))
  /-- A reference to the anchored node of a number. -/
  | alias (number : Nat)

/-- The node that stands where none is written. -/
def Node.empty : Node := .scalar .empty

/-- A tree of nodes with what its references refer to. -/
structure Document where
  /-- The outermost node. -/
  root : Node
  /-- The anchored nodes with the numbers of their anchors, in the order they begin. -/
  anchored : List (Nat × Node)

/-- The node that a reference refers to, and any other node itself. -/
def Document.target? (d : Document) : Node → Option Node
  | .alias number => d.anchored.reverse.lookup number
  | node => some node

/-- The tokens that are left, with the names that are known. -/
structure TokenReader where
  /-- The tokens that are left. -/
  tokens : List Token
  /-- What the handles of tags stand for, the latest first. -/
  handles : List (String × Tag) :=
    [("!", Tag.ofString "!"), ("!!", Tag.ofString "tag:yaml.org,2002:")]
  /-- The names of anchors, each once, with the number of the latest anchor of the name. -/
  numbers : List (String × Nat) := []
  /-- The anchored nodes with their numbers, in the order they begin. -/
  anchored : Array (Nat × Node) := #[]

/-- A computation over the tokens that are left; it fails where they make no node. -/
abbrev Parse := StateT TokenReader Option

namespace Parse

/-- The next token. -/
def peek? : Parse (Option Token) := do return (← get).tokens.head?

/-- Passes over a token. -/
def advance : Parse Unit := modify fun s => { s with tokens := s.tokens.drop 1 }

/-- Takes the next token. -/
def next? : Parse (Option Token) := do
  let t ← peek?
  advance
  return t

/-- The item that is written here, or the empty node in front of a token that ends it. -/
def itemUnless (ends : Token → Bool) (item : Parse Node) : Parse Node := do
  if (← peek?).any ends then return .empty else item

/-! ### Collections -/

/-- Whether a token ends an item of a column. -/
def endsEntry : Token → Bool
  | .blockEntry | .blockEnd => true
  | _ => false

/-- Whether a token ends a key or value of a column. -/
def endsBlockValue : Token → Bool
  | .key | .value | .blockEnd => true
  | _ => false

/-- Whether a token ends an item inside square brackets. -/
def endsFlowItem : Token → Bool
  | .flowEntry | .flowSequenceEnd => true
  | _ => false

/-- Whether a token ends a value inside braces. -/
def endsFlowValue : Token → Bool
  | .flowEntry | .flowMappingEnd => true
  | _ => false

/-- Whether a token is the colon in front of a value. -/
def isValue : Token → Bool
  | .value => true
  | _ => false

/-- The value behind a key, which may have none. -/
def valueOf (ends : Token → Bool) (item : Parse Node) : Parse Node := do
  if (← peek?).any isValue then
    advance
    itemUnless ends item
  else return .empty

/-- The items of a column of dashes, at most `n`. -/
def blockItems (item : Parse Node) : Nat → Parse (List Node)
  | 0 => failure
  | n + 1 => do
    match ← next? with
    | some .blockEntry =>
      let first ← itemUnless endsEntry item
      return first :: (← blockItems item n)
    | some .blockEnd => return []
    | _ => failure

/-- The items of a column of dashes that is not indented below its key, at most `n`. -/
def plainItems (item : Parse Node) : Nat → Parse (List Node)
  | 0 => failure
  | n + 1 => do
    match ← peek? with
    | some .blockEntry =>
      advance
      let first ← itemUnless (fun t => endsEntry t || endsBlockValue t) item
      return first :: (← plainItems item n)
    | _ => return []

/-- The entries of a column of keys, at most `n`. -/
def blockEntries (item : Parse Node) : Nat → Parse (List (Node × Node))
  | 0 => failure
  | n + 1 => do
    match ← next? with
    | some .key =>
      let key ← itemUnless endsBlockValue item
      let value ← valueOf endsBlockValue item
      return (key, value) :: (← blockEntries item n)
    | some .blockEnd => return []
    | _ => failure

/-- A single key with its value inside square brackets. Without a key the token that shows this is
passed over. -/
def flowPair (item : Parse Node) : Parse Node := do
  let key ←
    if (← peek?).any fun t => isValue t || endsFlowItem t then
      advance
      pure .empty
    else item
  return .mapping [(key, ← valueOf endsFlowItem item)]

/-- The items inside square brackets, at most `n`; `first` at the first one. -/
def flowItems (item : Parse Node) : Nat → Bool → Parse (List Node)
  | 0, _ => failure
  | n + 1, first => do
    match first, ← peek? with
    | _, some .flowSequenceEnd =>
      advance
      return []
    | false, some .flowEntry => advance
    | true, _ => pure ()
    | false, _ => failure
    match ← peek? with
    | some .flowSequenceEnd =>
      advance
      return []
    | some .key =>
      advance
      let pair ← flowPair item
      return pair :: (← flowItems item n false)
    | _ =>
      let node ← item
      return node :: (← flowItems item n false)

/-- The entries inside braces, at most `n`; `first` at the first one. -/
def flowEntries (item : Parse Node) : Nat → Bool → Parse (List (Node × Node))
  | 0, _ => failure
  | n + 1, first => do
    match first, ← peek? with
    | _, some .flowMappingEnd =>
      advance
      return []
    | false, some .flowEntry => advance
    | true, _ => pure ()
    | false, _ => failure
    match ← peek? with
    | some .flowMappingEnd =>
      advance
      return []
    | some .key =>
      advance
      let key ← itemUnless (fun t => isValue t || endsFlowValue t) item
      let value ← valueOf endsFlowValue item
      return (key, value) :: (← flowEntries item n false)
    | _ =>
      let key ← item
      return (key, .empty) :: (← flowEntries item n false)

/-! ### Anchors and tags -/

/-- What a tag stands for; its handle has to be known. -/
def resolveTag (handle : String) (suffix : Tag) : Parse Tag := do
  if handle.isEmpty then return suffix
  match (← get).handles.lookup handle with
  | some expansion => return expansion ++ suffix
  | none => failure

/-- The anchor and the tag in front of a node, in either order. -/
def properties : Parse (Option String × Option Tag) := do
  match ← peek? with
  | some (.anchor name) =>
    advance
    match ← peek? with
    | some (.tag handle suffix) =>
      advance
      return (some name, some (← resolveTag handle suffix))
    | _ => return (some name, none)
  | some (.tag handle suffix) =>
    advance
    let tag ← resolveTag handle suffix
    match ← peek? with
    | some (.anchor name) =>
      advance
      return (some name, some tag)
    | _ => return (none, some tag)
  | _ => return (none, none)

/-- Gives the node that begins here an anchor; its place among the anchored nodes. -/
def beginAnchored (name : String) : Parse Nat := do
  let s ← get
  let number := s.numbers.length
  set { s with
    numbers := (name, number) :: s.numbers.filter fun (other, _) => other ≠ name
    anchored := s.anchored.push (number, .empty) }
  return s.anchored.size

/-- Runs the computation of a node that may have an anchor. Inside the node the anchor is known. -/
def anchored (anchor : Option String) (node : Parse Node) : Parse Node := do
  match anchor with
  | none => node
  | some name =>
    let place ← beginAnchored name
    let result ← node
    modify fun s =>
      { s with anchored := s.anchored.modify place fun (number, _) => (number, result) }
    return result

/-- The node behind its anchor and tag: `block` tells whether a column may begin here, and
`unindented` whether it may begin without being indented. -/
def content (item : Bool → Bool → Parse Node) (block unindented : Bool) (tag : Option Tag)
    (mayBeEmpty : Bool) : Parse Node := do
  let count := (← get).tokens.length + 1
  match block, ← peek? with
  | _, some (.scalar s) =>
    advance
    return .scalar { s with tag }
  | _, some .flowSequenceStart =>
    advance
    return .sequence (← flowItems (item false false) count true)
  | _, some .flowMappingStart =>
    advance
    return .mapping (← flowEntries (item false false) count true)
  | true, some .blockSequenceStart =>
    advance
    return .sequence (← blockItems (item true false) count)
  | true, some .blockMappingStart =>
    advance
    return .mapping (← blockEntries (item true true) count)
  | _, some .blockEntry =>
    if unindented then return .sequence (← plainItems (item true false) count)
    else if mayBeEmpty then return .scalar { Scalar.empty with tag }
    else failure
  | _, _ => if mayBeEmpty then return .scalar { Scalar.empty with tag } else failure

/-- A node with at most `n` levels of collections in it. -/
def node : Nat → Bool → Bool → Parse Node
  | 0, _, _ => failure
  | n + 1, block, unindented => do
    match ← peek? with
    | some (.alias name) =>
      advance
      return .alias (← ((← get).numbers.lookup name : Option Nat))
    | _ =>
      let (anchor, tag) ← properties
      anchored anchor (content (node n) block unindented tag (anchor.isSome || tag.isSome))

/-! ### Documents -/

/-- The directives before a document: its version at most once, and each handle at most once. -/
def directives : Nat → Bool → List String → Parse Unit
  | 0, _, _ => failure
  | n + 1, versioned, declared => do
    match ← peek? with
    | some .version =>
      if versioned then failure
      advance
      directives n true declared
    | some (.tagHandle handle expansion) =>
      if declared.contains handle then failure
      advance
      modify fun s => { s with handles := (handle, expansion) :: s.handles }
      directives n versioned (handle :: declared)
    | _ => return ()

/-- The only document of a text. -/
def document : Parse Node := do
  let count := (← get).tokens.length + 1
  let explicit ← match ← peek? with
    | none => return .empty
    | some .version | some (.tagHandle ..) | some .documentStart => do
      directives count false []
      match ← next? with
      | some .documentStart => pure true
      | _ => failure
    | some _ => pure false
  let root ← match explicit, ← peek? with
    | true, none | true, some .documentEnd => pure .empty
    | _, _ => node count true false
  modify fun s => { s with tokens := s.tokens.dropWhile fun
    | .documentEnd => true
    | _ => false }
  match ← peek? with
  | none => return root
  | some _ => failure

end Parse

/-- The document that a text with only one describes. -/
def Document.read? (s : String) : Option Document := do
  let (root, reader) ← Parse.document.run { tokens := ← tokens? s }
  return { root, anchored := reader.anchored.toList }

end LiveConstraints.Yaml

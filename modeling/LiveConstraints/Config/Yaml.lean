import LiveConstraints.Config.Reading
import LiveConstraints.Yaml.Node
/-!
# Configurations in YAML

Scalars have no types of their own: whether one is a number or a boolean is decided by its text
where one is wanted, and only a plain scalar can be either. A scalar written as nothing is a table
without entries and a list without items.
-/

namespace LiveConstraints.Config

open Yaml (Document Node Scalar Tag)

/-- Whether a scalar may stand for something other than text: a plain one always, a literal block if
it has the tag of the type. -/
def yamlTyped (type : String) (s : Scalar) : Bool :=
  s.form = .plain
    || (s.form = .literal && s.tag == some (Tag.ofString ("tag:yaml.org,2002:" ++ type)))

/-- Whether a scalar is written as nothing. -/
def yamlEmpty (s : Scalar) : Bool := s.text.isEmpty && s.form = .plain

/-- Whether a text begins with a sign. -/
def signed (cs : List Char) : Bool := cs.head? == some '+' || cs.head? == some '-'

/-- A text without the plus sign that may come first. -/
def dropPlus : List Char → List Char
  | '+' :: rest => rest
  | cs => cs

/-- Digits of a base, below a limit. -/
def yamlDigits? (base : Nat) (cs : List Char) : Option Nat := do
  if cs.isEmpty then none
  let ds ← cs.mapM Yaml.hexDigit?
  if ds.all (· < base) then some (ds.foldl (fun n d => base * n + d) 0) else none

/-- A natural number: hexadecimal, octal and binary behind their marks, and decimal without leading
zeros. -/
def yamlNatural? (text : String) : Option Nat :=
  let cs := dropPlus text.toList
  match cs with
  | '0' :: 'x' :: ds => yamlDigits? 16 ds
  | '0' :: 'o' :: ds => yamlDigits? 8 ds
  | '0' :: 'b' :: ds => yamlDigits? 2 ds
  | '0' :: _ :: _ => none
  | ds => yamlDigits? 10 ds

/-- A number: infinity and not-a-number in their own spelling, or a decimal that is finite. -/
def yamlNumber? (text : String) : Option Float :=
  let cs := text.toList
  let unsigned := String.ofList (dropPlus cs)
  if cs.head? == some '+' && signed (cs.drop 1) then none
  else if [".inf", ".Inf", ".INF"].contains unsigned then some Decimal.infinity
  else if ["-.inf", "-.Inf", "-.INF"].contains text then some (-Decimal.infinity)
  else if [".nan", ".NaN", ".NAN"].contains text then some Decimal.notANumber
  else (Decimal.ofString? unsigned).filter Float.isFinite

/-- A boolean. -/
def yamlFlag? (text : String) : Option Bool :=
  if ["true", "True", "TRUE"].contains text then some true
  else if ["false", "False", "FALSE"].contains text then some false
  else none

/-- Whether a text stands for no value. -/
def yamlNull (s : Scalar) : Bool :=
  s.form = .plain && ["", "~", "null", "Null", "NULL"].contains s.text

/-- The name that a scalar is for: its text, or its own tag if it has one and no value. -/
def yamlWord? (s : Scalar) : Option String :=
  match s.tag.bind Tag.ownName? with
  | some name => if yamlNull s then some name else none
  | none => some s.text

/-- The value of a scalar of a type. -/
def yamlScalar? {α : Type} (type : String) (read : String → Option α) : Node → Option α
  | .scalar s => if yamlTyped type s then read s.text else none
  | _ => none

/-- The text of a key, which has to be a scalar. -/
def yamlKey? : Node → Option String
  | .scalar s => some s.text
  | _ => none

/-- The entries of a mapping in a document, whose keys may be references. -/
def yamlFields? (d : Document) : Node → Option (List (String × Node))
  | .mapping entries => entries.mapM fun (k, v) => do return (← yamlKey? (← d.target? k), v)
  | .scalar s => if yamlEmpty s then some [] else none
  | _ => none

/-- The items of a sequence. -/
def yamlItems? : Node → Option (List Node)
  | .sequence items => some items
  | .scalar s => if yamlEmpty s then some [] else none
  | _ => none

/-- How values in a document are taken; a reference is followed first. -/
def yamlFormat (d : Document) : Format Node where
  fields? _ v := do yamlFields? d (← d.target? v)
  items? v := do yamlItems? (← d.target? v)
  natural? v := do yamlScalar? "int" yamlNatural? (← d.target? v)
  number? v := do yamlScalar? "float" yamlNumber? (← d.target? v)
  flag? v := do yamlScalar? "bool" yamlFlag? (← d.target? v)
  word? v := do
    match ← d.target? v with
    | .scalar s => yamlWord? s
    | _ => none

/-- The configuration of a text in YAML. -/
def ofYaml (text : Option String) : Except LoadError Config :=
  load (fun s => do
    let d ← Document.read? s
    read? (yamlFormat d) d.root) text

end LiveConstraints.Config

import LiveConstraints.Config.Reading
import LiveConstraints.Toml.Document
/-!
# Configurations in TOML

Values have types of their own here: an integer is a number too, but a text is neither. A list may
stand for a table, its items in the order of the settings. A date is a table without any setting.
-/

namespace LiveConstraints.Config

open Toml (Node)

/-- Whether a value holds nothing. -/
def tomlEmpty : Node → Bool
  | .array items => items.isEmpty
  | .inline entries | .table _ entries => entries.isEmpty
  | _ => false

/-- The name that a table with a single entry is for, if the entry holds nothing. -/
def tomlTagged? : List (String × Node) → Option String
  | [(name, node)] => if tomlEmpty node then some name else none
  | _ => none

/-- How values are taken. -/
def tomlFormat : Format Node where
  fields? names
    | .table _ entries | .inline entries => some entries
    | .array items => some (names.zip items)
    | .tables newest older => some (names.zip ((newest :: older).reverse.map (.table .header)))
    | .moment => some []
    | _ => none
  items?
    | .array items => some items
    | .tables newest older => some ((newest :: older).reverse.map (.table .header))
    | _ => none
  natural?
    | .integer i => if 0 ≤ i then some i.toNat else none
    | _ => none
  number?
    | .integer i => Decimal.ofString? (toString i)
    | .float x => some x
    | _ => none
  flag?
    | .boolean b => some b
    | _ => none
  word?
    | .text s => some s
    | .inline entries | .table _ entries => tomlTagged? entries
    | _ => none

/-- The configuration of a text in TOML. -/
def ofToml (text : Option String) : Except LoadError Config :=
  load (fun s => do read? tomlFormat (.table .header (← Toml.Document.read? s))) text

end LiveConstraints.Config

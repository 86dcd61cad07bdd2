import LiveConstraints.Toml.Scalar
/-!
# Tables

The tree that a document describes. A table is written in pieces: by a header, by longer headers
that imply it, or by dotted keys. Which of these made a table decides what may still be added to it,
so each table remembers its `Making`:

* a header may name a table that only longer headers implied so far, and no other table twice;
* a dotted key may add to tables that dotted keys made or longer headers implied, and the table that
  gets the entry has to be one that dotted keys made;
* a table written inline is complete.
-/

namespace LiveConstraints.Toml

/-- How a table came to be. -/
inductive Making where
  /-- It has a header of its own. -/
  | header
  /-- The header of a table inside it implied it. -/
  | implied
  /-- A dotted key made it. -/
  | dotted
  deriving DecidableEq, Repr

/-- A value of a document. -/
inductive Node where
  /-- A text. -/
  | text (s : String)
  /-- An integer. -/
  | integer (i : Int)
  /-- A number that is not an integer. -/
  | float (x : Float)
  /-- A boolean. -/
  | boolean (b : Bool)
  /-- A date or time. -/
  | moment
  /-- An array. -/
  | array (items : List Node)
  /-- A table written as a value. -/
  | inline (entries : List (String × Node))
  /-- A table. -/
  | table (making : Making) (entries : List (String × Node))
  /-- Tables under one header, the newest apart from the older ones. -/
  | tables (newest : List (String × Node)) (older : List (List (String × Node)))

instance : Inhabited Node := ⟨.moment⟩

/-- The entries of a table in the order they were added. -/
abbrev Entries := List (String × Node)

namespace Entries

/-- Changes the entry of a key; a new entry comes last. -/
def alter (key : String) (f : Option Node → Option Node) : Entries → Option Entries
  | [] => do return [(key, ← f none)]
  | (k, node) :: rest =>
    if k = key then do return (k, ← f (some node)) :: rest
    else do return (k, node) :: (← alter key f rest)

/-- Adds an entry whose key must be new. -/
def addNew (key : String) (node : Node) : Entries → Option Entries :=
  alter key fun
    | none => some node
    | some _ => none

/-- Changes the table at the end of a path, which begins in a given table. Missing tables are made
on the way; of several tables under one header the newest is meant. -/
def within (dotted : Bool) (change : Making → Entries → Option Entries) :
    List String → Making → Entries → Option Entries
  | [], making, entries => change making entries
  | key :: path, _, entries =>
    let made : Making := if dotted then .dotted else .implied
    entries.alter key fun
      | none => do return .table made (← within dotted change path made [])
      | some (.table making inner) =>
        if dotted && making = .header then none
        else do return .table making (← within dotted change path making inner)
      | some (.tables newest older) => do
        return .tables (← within dotted change path .header newest) older
      | some _ => none

/-- Adds an entry under a dotted key. -/
def assign (parents : List String) (key : String) (node : Node) (entries : Entries) :
    Option Entries :=
  within true (fun making inner =>
    if decide (making = .dotted) == parents.isEmpty then none else inner.addNew key node)
    parents .header entries

/-- Begins a table under a header. -/
def openTable (parents : List String) (key : String) (entries : Entries) : Option Entries :=
  within false (fun _ inner => inner.alter key fun
    | none => some (.table .header [])
    | some (.table .implied members) => some (.table .header members)
    | some _ => none)
    parents .header entries

/-- Begins one more table under a header for several. -/
def openNext (parents : List String) (key : String) (entries : Entries) : Option Entries :=
  within false (fun _ inner => inner.alter key fun
    | none => some (.tables [] [])
    | some (.tables newest older) => some (.tables [] (newest :: older))
    | some _ => none)
    parents .header entries

end Entries

end LiveConstraints.Toml

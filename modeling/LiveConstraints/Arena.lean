import LiveConstraints.Id
/-!
# Tables with stable identities

An arena hands out indices in order and never reuses one: removing an entry leaves a hole. Objects,
variables, constraints and a solver's own variables and primitives all live in arenas, so a handle
that outlives its entry is noticed and never names another entry.

`get?_insert_next`, `get?_remove_self`, `get?_modify_self` and their companions for other indices
say what each operation does to look-up.
-/

namespace LiveConstraints

/-- A table of entries addressed by identities of one kind. -/
structure Arena (κ : Kind) (α : Type) where
  /-- The entries in order of insertion, with holes where one was removed. -/
  cells : Array (Option α)

namespace Arena

variable {κ : Kind} {α : Type}

/-- The table without entries. -/
def empty : Arena κ α := ⟨#[]⟩

instance : Inhabited (Arena κ α) := ⟨empty⟩

instance : EmptyCollection (Arena κ α) := ⟨empty⟩

/-- The identity that the next entry gets. -/
def next (a : Arena κ α) : Id κ := ⟨a.cells.size⟩

/-- The entry of an identity, unless it was removed or never existed. -/
def get? (a : Arena κ α) (i : Id κ) : Option α := a.cells[i.index]?.join

/-- Whether an entry exists. -/
def contains (a : Arena κ α) (i : Id κ) : Bool := (a.get? i).isSome

/-- Adds an entry under the next identity. -/
def insert (a : Arena κ α) (x : α) : Arena κ α := ⟨a.cells.push (some x)⟩

/-- Removes an entry. -/
def remove (a : Arena κ α) (i : Id κ) : Arena κ α := ⟨a.cells.setIfInBounds i.index none⟩

/-- Changes an entry that exists. -/
def modify (a : Arena κ α) (i : Id κ) (f : α → α) : Arena κ α :=
  ⟨a.cells.modify i.index fun cell => cell.map f⟩

/-- The entries that exist, with their identities, in order. -/
def live (a : Arena κ α) : List (Id κ × α) :=
  a.cells.toList.zipIdx.filterMap fun (cell, i) => cell.map fun x => (⟨i⟩, x)

/-- The identities of the entries that exist, in order. -/
def ids (a : Arena κ α) : List (Id κ) := a.live.map Prod.fst

/-- A new entry is found under the identity it was given. -/
theorem get?_insert_next (a : Arena κ α) (x : α) : (a.insert x).get? a.next = some x := by
  simp [get?, insert, next]

/-- Adding an entry leaves the others alone. -/
theorem get?_insert_of_ne (a : Arena κ α) (x : α) {i : Id κ} (h : i ≠ a.next) :
    (a.insert x).get? i = a.get? i := by
  have h' : i.index ≠ a.cells.size := fun e => h (by cases i; simp_all [next])
  simp [get?, insert, Array.getElem?_push, h']

/-- A removed entry is gone. -/
theorem get?_remove_self (a : Arena κ α) (i : Id κ) : (a.remove i).get? i = none := by
  by_cases h : i.index < a.cells.size <;> simp [get?, remove, h]

/-- Removing an entry leaves the others alone. -/
theorem get?_remove_of_ne (a : Arena κ α) {i j : Id κ} (h : j ≠ i) :
    (a.remove i).get? j = a.get? j := by
  have h' : i.index ≠ j.index := fun e => h (by cases i; cases j; simp_all)
  simp [get?, remove, h']

/-- A changed entry is found changed. -/
theorem get?_modify_self (a : Arena κ α) (i : Id κ) (f : α → α) :
    (a.modify i f).get? i = (a.get? i).map f := by
  simp only [get?, modify, Array.getElem?_modify]
  cases a.cells[i.index]? with
  | none => simp
  | some cell => cases cell <;> simp

/-- Changing an entry leaves the others alone. -/
theorem get?_modify_of_ne (a : Arena κ α) {i j : Id κ} (f : α → α) (h : j ≠ i) :
    (a.modify i f).get? j = a.get? j := by
  have h' : i.index ≠ j.index := fun e => h (by cases i; cases j; simp_all)
  simp [get?, modify, Array.getElem?_modify, h']

end Arena

end LiveConstraints

/-!
# Maps in key order

A finite map as a list of pairs in ascending order of keys. Fields of an object, a variable's solver
bindings and the coefficients of a linear form are all visited in key order, and the answers show
it, so the order belongs to the type. `find?_insert_self`, `find?_insert_of_ne` and the two lemmas
on `erase` say what each operation does to look-up; they need no assumption on the order of the
entries.
-/

namespace LiveConstraints

/-- A finite map whose entries stand in ascending order of keys. -/
structure SortedMap (κ : Type) (ν : Type) where
  /-- The entries in order. -/
  entries : List (κ × ν)

namespace SortedMap

variable {κ ν : Type}

/-- The map without entries. -/
def empty : SortedMap κ ν := ⟨[]⟩

instance : Inhabited (SortedMap κ ν) := ⟨empty⟩

instance : EmptyCollection (SortedMap κ ν) := ⟨empty⟩

/-- The keys in order. -/
def keys (m : SortedMap κ ν) : List κ := m.entries.map Prod.fst

/-- The values in order of their keys. -/
def values (m : SortedMap κ ν) : List ν := m.entries.map Prod.snd

/-- Whether there are no entries. -/
def isEmpty (m : SortedMap κ ν) : Bool := m.entries.isEmpty

section Lookup

variable [DecidableEq κ]

/-- Looks a key up in a list of pairs. -/
def findIn (k : κ) : List (κ × ν) → Option ν
  | [] => none
  | (k', v) :: r => if k = k' then some v else findIn k r

/-- The value at a key. -/
def find? (m : SortedMap κ ν) (k : κ) : Option ν := findIn k m.entries

/-- Whether a key has a value. -/
def contains (m : SortedMap κ ν) (k : κ) : Bool := (m.find? k).isSome

/-- Removes a key. -/
def erase (m : SortedMap κ ν) (k : κ) : SortedMap κ ν := ⟨m.entries.filter fun e => e.1 ≠ k⟩

variable [LT κ] [DecidableLT κ]

/-- Puts a pair into a list of pairs, before the first larger key. -/
def insertIn (k : κ) (v : ν) : List (κ × ν) → List (κ × ν)
  | [] => [(k, v)]
  | (k', v') :: r =>
    if k = k' then (k, v) :: r
    else if k < k' then (k, v) :: (k', v') :: r
    else (k', v') :: insertIn k v r

/-- Sets the value at a key. -/
def insert (m : SortedMap κ ν) (k : κ) (v : ν) : SortedMap κ ν := ⟨insertIn k v m.entries⟩

/-- The map with the given pairs; of two values for a key the later counts. -/
def ofList (pairs : List (κ × ν)) : SortedMap κ ν :=
  pairs.foldl (fun m e => m.insert e.1 e.2) empty

end Lookup

section Lemmas

variable [DecidableEq κ]

theorem findIn_filter_self (k : κ) (es : List (κ × ν)) :
    findIn k (es.filter fun e => e.1 ≠ k) = none := by
  induction es with
  | nil => rfl
  | cons e r ih =>
    obtain ⟨k', v'⟩ := e
    by_cases h : k' = k
    · simpa [h] using ih
    · have : ¬ k = k' := fun h' => h h'.symm
      simpa [h, findIn, this] using ih

theorem findIn_filter_of_ne {k k' : κ} (h : k' ≠ k) (es : List (κ × ν)) :
    findIn k' (es.filter fun e => e.1 ≠ k) = findIn k' es := by
  induction es with
  | nil => rfl
  | cons e r ih =>
    obtain ⟨k'', v''⟩ := e
    by_cases h' : k'' = k
    · subst h'
      simpa [findIn, h] using ih
    · by_cases h'' : k' = k''
      · subst h''
        simp [h, findIn]
      · simpa [h', findIn, h''] using ih

/-- A removed key has no value. -/
theorem find?_erase_self (m : SortedMap κ ν) (k : κ) : (m.erase k).find? k = none :=
  findIn_filter_self k m.entries

/-- Removing a key leaves the others alone. -/
theorem find?_erase_of_ne (m : SortedMap κ ν) {k k' : κ} (h : k' ≠ k) :
    (m.erase k).find? k' = m.find? k' :=
  findIn_filter_of_ne h m.entries

variable [LT κ] [DecidableLT κ]

theorem findIn_insertIn_self (k : κ) (v : ν) (es : List (κ × ν)) :
    findIn k (insertIn k v es) = some v := by
  induction es with
  | nil => simp [insertIn, findIn]
  | cons e r ih =>
    obtain ⟨k', v'⟩ := e
    unfold insertIn
    split
    · simp [findIn]
    · split
      · simp [findIn]
      · next h _ => simpa [findIn, h] using ih

theorem findIn_insertIn_of_ne {k k' : κ} (h : k' ≠ k) (v : ν) (es : List (κ × ν)) :
    findIn k' (insertIn k v es) = findIn k' es := by
  induction es with
  | nil => simp [insertIn, findIn, h]
  | cons e r ih =>
    obtain ⟨k'', v''⟩ := e
    unfold insertIn
    split
    · next h' => subst h'; simp [findIn, h]
    · split
      · simp [findIn, h]
      · simp [findIn, ih]

/-- The value just set is found. -/
theorem find?_insert_self (m : SortedMap κ ν) (k : κ) (v : ν) : (m.insert k v).find? k = some v :=
  findIn_insertIn_self k v m.entries

/-- Setting a value leaves the other keys alone. -/
theorem find?_insert_of_ne (m : SortedMap κ ν) {k k' : κ} (h : k' ≠ k) (v : ν) :
    (m.insert k v).find? k' = m.find? k' :=
  findIn_insertIn_of_ne h v m.entries

end Lemmas

end SortedMap

/-- A finite set whose members stand in ascending order. -/
abbrev SortedSet (κ : Type) := SortedMap κ Unit

namespace SortedSet

variable {κ : Type}

/-- The members in order. -/
def members (s : SortedSet κ) : List κ := s.keys

variable [DecidableEq κ] [LT κ] [DecidableLT κ]

/-- Adds a member. -/
def add (s : SortedSet κ) (k : κ) : SortedSet κ := s.insert k ()

/-- The set of the members of a list. -/
def ofMembers (ks : List κ) : SortedSet κ := ks.foldl add ∅

end SortedSet

end LiveConstraints

import LiveConstraints.Arena
import LiveConstraints.SortedMap
import Mathlib.Data.List.Basic
/-!
# Arenas and sorted maps under their operations

The look-up laws that the rest of the theory rests on. For an arena every operation is described by
one equation on `get?`, and a live index lies below `next`, which only grows: an index that was
handed out once is never handed out again. For a map keyed by identities the entries stand in
strictly ascending order (`Ordered`), so an entry is found under its own key and no key occurs
twice.
-/

namespace LiveConstraints

namespace Arena

variable {κ : Kind} {α : Type}

@[simp]
theorem get?_empty (i : Id κ) : (∅ : Arena κ α).get? i = none := rfl

/-- A live index was handed out before. -/
theorem lt_next_of_get? {a : Arena κ α} {i : Id κ} {x : α} (h : a.get? i = some x) :
    i < a.next := by
  by_contra hle
  have hout : a.cells[i.index]? = none := Array.getElem?_eq_none (Nat.le_of_not_lt hle)
  rw [get?, hout] at h
  exact absurd h (by simp)

theorem get?_next (a : Arena κ α) : a.get? a.next = none := by
  rcases h : a.get? a.next with - | x
  · rfl
  · exact absurd (lt_next_of_get? h) (Nat.lt_irrefl _)

theorem get?_insert (a : Arena κ α) (x : α) (i : Id κ) :
    (a.insert x).get? i = if i = a.next then some x else a.get? i := by
  split
  · next h => rw [h, get?_insert_next]
  · next h => exact get?_insert_of_ne a x h

theorem get?_remove (a : Arena κ α) (i j : Id κ) :
    (a.remove i).get? j = if j = i then none else a.get? j := by
  split
  · next h => rw [h, get?_remove_self]
  · next h => exact get?_remove_of_ne a h

/-- What was there is still there after an entry was added. -/
theorem get?_insert_of_get? {a : Arena κ α} {x y : α} {i : Id κ} (h : a.get? i = some y) :
    (a.insert x).get? i = some y := by
  rw [get?_insert_of_ne, h]
  rintro rfl
  rw [get?_next] at h
  cases h

/-- What is there after an entry was added is that entry or was there before. -/
theorem of_get?_insert {a : Arena κ α} {x y : α} {i : Id κ} (h : (a.insert x).get? i = some y) :
    i = a.next ∧ y = x ∨ i ≠ a.next ∧ a.get? i = some y := by
  rw [get?_insert] at h
  split at h
  · next hi => exact .inl ⟨hi, (Option.some.inj h).symm⟩
  · next hi => exact .inr ⟨hi, h⟩

/-- What is there after an entry was removed is another one and was there before. -/
theorem of_get?_remove {a : Arena κ α} {i j : Id κ} {x : α} (h : (a.remove i).get? j = some x) :
    j ≠ i ∧ a.get? j = some x := by
  rw [get?_remove] at h
  split at h
  · cases h
  · next hj => exact ⟨hj, h⟩

theorem get?_modify (a : Arena κ α) (i j : Id κ) (f : α → α) :
    (a.modify i f).get? j = if j = i then (a.get? j).map f else a.get? j := by
  split
  · next h => rw [h, get?_modify_self]
  · next h => exact get?_modify_of_ne a f h

/-- What is looked at of entries is the same after a change that keeps it. -/
theorem map_get?_modify {β : Type} {a : Arena κ α} {i : Id κ} {f : α → α} {g : α → β}
    (h : ∀ x, a.get? i = some x → g (f x) = g x) (j : Id κ) :
    ((a.modify i f).get? j).map g = (a.get? j).map g := by
  rw [get?_modify]
  split
  · next heq =>
    subst heq
    cases hx : a.get? j with
    | none => rfl
    | some x => exact congrArg some (h x hx)
  · rfl

@[simp]
theorem next_insert (a : Arena κ α) (x : α) : (a.insert x).next = ⟨a.next.index + 1⟩ := by
  simp [next, insert]

@[simp]
theorem next_remove (a : Arena κ α) (i : Id κ) : (a.remove i).next = a.next := by
  simp [next, remove]

@[simp]
theorem next_modify (a : Arena κ α) (i : Id κ) (f : α → α) : (a.modify i f).next = a.next := by
  simp [next, modify]

theorem modify_modify (a : Arena κ α) (i : Id κ) (f g : α → α) :
    (a.modify i f).modify i g = a.modify i fun x ↦ g (f x) := by
  unfold modify
  congr 1
  refine Array.ext_getElem? fun n ↦ ?_
  simp only [Array.getElem?_modify]
  split
  · simp only [Option.map_map]
    congr 1
    funext cell
    cases cell <;> rfl
  · rfl

theorem remove_modify (a : Arena κ α) (i j : Id κ) (f : α → α) :
    (a.modify i f).remove j = (a.remove j).modify i f := by
  unfold modify remove
  congr 1
  refine Array.ext_getElem? fun n ↦ ?_
  simp only [Array.getElem?_modify, Array.getElem?_setIfInBounds, Array.size_modify]
  split
  · split <;> split <;> rfl
  · rfl

theorem modify_id (a : Arena κ α) (i : Id κ) : a.modify i (fun x ↦ x) = a := by
  unfold modify
  congr 1
  refine Array.ext_getElem? fun n ↦ ?_
  simp only [Array.getElem?_modify]
  split
  · simp
  · rfl

theorem modify_congr {a : Arena κ α} {i : Id κ} {x : α} (h : a.get? i = some x) {f g : α → α}
    (hfg : f x = g x) : a.modify i f = a.modify i g := by
  unfold modify
  congr 1
  refine Array.ext_getElem? fun n ↦ ?_
  simp only [Array.getElem?_modify]
  split
  · next hn =>
    subst hn
    rw [Option.join_eq_some_iff.1 h]
    simp [hfg]
  · rfl

/-- Changing an entry that does not exist changes nothing. -/
theorem modify_of_none {a : Arena κ α} {i : Id κ} (h : a.get? i = none) (f : α → α) :
    a.modify i f = a := by
  unfold modify
  congr 1
  refine Array.ext_getElem? fun n ↦ ?_
  simp only [Array.getElem?_modify]
  split
  · next hn =>
    subst hn
    rcases hcell : a.cells[i.index]? with - | cell
    · rfl
    · rw [get?, hcell, Option.join_some] at h
      rw [h]
      rfl
  · rfl

theorem contains_iff {a : Arena κ α} {i : Id κ} : a.contains i = true ↔ ∃ x, a.get? i = some x := by
  rw [contains, Option.isSome_iff_exists]

/-- The live entries are exactly the ones that are found. -/
theorem mem_live {a : Arena κ α} {i : Id κ} {x : α} : (i, x) ∈ a.live ↔ a.get? i = some x := by
  simp only [live, List.mem_filterMap, Prod.exists, List.mem_zipIdx_iff_getElem?, get?,
    Array.getElem?_toList]
  constructor
  · rintro ⟨cell, n, hcell, heq⟩
    obtain ⟨y, rfl, hy⟩ := Option.map_eq_some_iff.1 heq
    obtain ⟨rfl, rfl⟩ := Prod.mk.inj hy
    simp [hcell]
  · intro h
    exact ⟨some x, i.index, Option.join_eq_some_iff.1 h, rfl⟩

end Arena

namespace SortedMap

theorem mem_insertIn {κ ν : Type} [DecidableEq κ] [LT κ] [DecidableLT κ] {k : κ} {v : ν}
    {es : List (κ × ν)} {e : κ × ν} (h : e ∈ insertIn k v es) : e = (k, v) ∨ e ∈ es := by
  induction es with
  | nil => exact .inl (by simpa [insertIn] using h)
  | cons e' r ih =>
    obtain ⟨k', v'⟩ := e'
    unfold insertIn at h
    split at h
    · rcases List.mem_cons.1 h with h | h
      · exact .inl h
      · exact .inr (List.mem_cons_of_mem _ h)
    · split at h
      · rcases List.mem_cons.1 h with h | h
        · exact .inl h
        · exact .inr h
      · rcases List.mem_cons.1 h with h | h
        · exact .inr (h ▸ List.mem_cons_self)
        · exact (ih h).imp_right (List.mem_cons_of_mem _)

/-- Of two values for a key the later counts. -/
theorem insert_insert {κ ν : Type} [DecidableEq κ] [LT κ] [DecidableLT κ] (m : SortedMap κ ν) (k : κ)
    (v v' : ν) : (m.insert k v).insert k v' = m.insert k v' := by
  have hentries : ∀ es : List (κ × ν), insertIn k v' (insertIn k v es) = insertIn k v' es := by
    intro es
    induction es with
    | nil => simp [insertIn]
    | cons e r ih =>
      by_cases heq : k = e.1
      · simp [insertIn, heq]
      · by_cases hlt : k < e.1
        · simp [insertIn, heq, hlt]
        · simp [insertIn, heq, hlt, ih]
  exact congrArg SortedMap.mk (hentries m.entries)

/-! ### Ordered maps -/

section Ordered

variable {κ : Kind} {ν : Type}

/-- The entries stand in strictly ascending order of their keys. -/
def Ordered (m : SortedMap (Id κ) ν) : Prop := m.entries.Pairwise fun a b ↦ a.1 < b.1

theorem ordered_empty : Ordered (∅ : SortedMap (Id κ) ν) := List.Pairwise.nil

theorem pairwise_insertIn {k : Id κ} {v : ν} {es : List (Id κ × ν)}
    (h : es.Pairwise fun a b ↦ a.1 < b.1) : (insertIn k v es).Pairwise fun a b ↦ a.1 < b.1 := by
  induction es with
  | nil => simp [insertIn]
  | cons e' r ih =>
    obtain ⟨k', v'⟩ := e'
    obtain ⟨hlt, hr⟩ := List.pairwise_cons.1 h
    unfold insertIn
    split
    · next heq =>
      subst heq
      exact List.pairwise_cons.2 ⟨hlt, hr⟩
    · split
      · next hkk' =>
        refine List.pairwise_cons.2 ⟨fun e he ↦ ?_, h⟩
        rcases List.mem_cons.1 he with rfl | he
        · exact hkk'
        · exact Nat.lt_trans hkk' (hlt e he)
      · next hne hnlt =>
        refine List.pairwise_cons.2 ⟨fun e he ↦ ?_, ih hr⟩
        rcases mem_insertIn he with rfl | he
        · -- neither equal nor below, so above
          have hne' : k.index ≠ k'.index := fun h ↦ hne (by cases k; cases k'; simp_all)
          have hnlt' : ¬ k.index < k'.index := hnlt
          show k'.index < k.index
          omega
        · exact hlt e he

theorem Ordered.insert {m : SortedMap (Id κ) ν} (h : m.Ordered) (k : Id κ) (v : ν) :
    (m.insert k v).Ordered := pairwise_insertIn h

theorem Ordered.erase {m : SortedMap (Id κ) ν} (h : m.Ordered) (k : Id κ) :
    (m.erase k).Ordered := h.sublist List.filter_sublist

theorem findIn_of_mem {k : Id κ} {v : ν} {es : List (Id κ × ν)}
    (h : es.Pairwise fun a b ↦ a.1 < b.1) (hmem : (k, v) ∈ es) : findIn k es = some v := by
  induction es with
  | nil => exact absurd hmem (by simp)
  | cons e r ih =>
    obtain ⟨hlt, hr⟩ := List.pairwise_cons.1 h
    rcases List.mem_cons.1 hmem with rfl | hmem
    · simp [findIn]
    · have hne : k ≠ e.1 := fun heq ↦ Nat.lt_irrefl _ (heq ▸ hlt _ hmem : e.1 < e.1)
      simpa [findIn, hne] using ih hr hmem

/-- In an ordered map every entry is found under its own key. -/
theorem Ordered.find?_of_mem {m : SortedMap (Id κ) ν} (h : m.Ordered) {k : Id κ} {v : ν}
    (hmem : (k, v) ∈ m.entries) : m.find? k = some v := findIn_of_mem h hmem

theorem Ordered.nodup_keys {m : SortedMap (Id κ) ν} (h : m.Ordered) : m.keys.Nodup := by
  have hkeys : m.keys.Pairwise fun a b ↦ a < b := List.pairwise_map.2 h
  refine hkeys.imp fun {a b} hlt heq ↦ ?_
  subst heq
  exact Nat.lt_irrefl _ hlt

end Ordered

section Lookup

variable {κ ν : Type} [DecidableEq κ]

theorem mem_of_findIn {k : κ} {v : ν} {es : List (κ × ν)} (h : findIn k es = some v) :
    (k, v) ∈ es := by
  induction es with
  | nil => exact absurd h (by simp [findIn])
  | cons e r ih =>
    unfold findIn at h
    split at h
    · next heq =>
      cases h
      exact heq ▸ List.mem_cons_self
    · exact List.mem_cons_of_mem _ (ih h)

/-- What is found under a key is an entry. -/
theorem mem_of_find? {m : SortedMap κ ν} {k : κ} {v : ν} (h : m.find? k = some v) :
    (k, v) ∈ m.entries := mem_of_findIn h

theorem find?_isSome_of_mem_keys {m : SortedMap κ ν} {k : κ} (h : k ∈ m.keys) :
    (m.find? k).isSome = true := by
  obtain ⟨es⟩ := m
  simp only [keys, find?] at h ⊢
  induction es with
  | nil => exact absurd h (by simp)
  | cons e r ih =>
    unfold findIn
    split
    · rfl
    · next hne =>
      rcases List.mem_cons.1 h with h | h
      · exact absurd h hne
      · exact ih h

theorem mem_keys_iff {m : SortedMap κ ν} {k : κ} : k ∈ m.keys ↔ (m.find? k).isSome = true := by
  refine ⟨find?_isSome_of_mem_keys, fun h ↦ ?_⟩
  obtain ⟨v, hv⟩ := Option.isSome_iff_exists.1 h
  exact List.mem_map.2 ⟨_, mem_of_find? hv, rfl⟩

theorem find?_erase (m : SortedMap κ ν) (k k' : κ) :
    (m.erase k).find? k' = if k' = k then none else m.find? k' := by
  split
  · next h => rw [h, find?_erase_self]
  · next h => exact find?_erase_of_ne m h

theorem find?_insert [LT κ] [DecidableLT κ] (m : SortedMap κ ν) (k : κ) (v : ν) (k' : κ) :
    (m.insert k v).find? k' = if k' = k then some v else m.find? k' := by
  split
  · next h => rw [h, find?_insert_self]
  · next h => exact find?_insert_of_ne m h v

end Lookup

end SortedMap

namespace SortedSet

variable {κ : Type} [DecidableEq κ]

theorem mem_members_iff {s : SortedSet κ} {k : κ} :
    k ∈ s.members ↔ (SortedMap.find? s k).isSome = true := SortedMap.mem_keys_iff

theorem mem_members_erase {s : SortedSet κ} {k k' : κ} :
    k' ∈ SortedSet.members (SortedMap.erase s k) ↔ k' ∈ s.members ∧ k' ≠ k := by
  rw [mem_members_iff, mem_members_iff, SortedMap.find?_erase]
  split <;> simp_all

theorem mem_members_add [LT κ] [DecidableLT κ] {s : SortedSet κ} {k k' : κ} :
    k' ∈ (s.add k).members ↔ k' = k ∨ k' ∈ s.members := by
  rw [mem_members_iff, mem_members_iff, add, SortedMap.find?_insert]
  split <;> simp_all

theorem mem_members_ofMembers [LT κ] [DecidableLT κ] {ks : List κ} {k : κ} :
    k ∈ (ofMembers ks).members ↔ k ∈ ks := by
  have hfold : ∀ s : SortedSet κ, k ∈ (ks.foldl add s).members ↔ k ∈ s.members ∨ k ∈ ks := by
    induction ks with
    | nil => simp
    | cons k' ks ih =>
      intro s
      rw [List.foldl_cons, ih, mem_members_add, List.mem_cons]
      tauto
  exact (hfold ∅).trans (or_iff_right nofun)

end SortedSet

end LiveConstraints

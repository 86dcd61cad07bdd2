import LiveConstraints.Proofs.Furnishing
import LiveConstraints.Proofs.Incidence.Links
/-!
# Changing the links

What single changes of the tables make of `Engine.Linked`. A variable comes into being doomed, for
nothing refers to it yet; it is spared when the slot of its field names it or the variable it is a
part of registers it, doomed again when that reference is taken back, and then it can go. A change of
one variable in place is described once (`Engine.Linked.modify`).
-/

namespace LiveConstraints

namespace Engine

variable {e e' e'' : Engine} {x y : VarId} {v w : Variable} {id : ConstraintId} {obj : ObjectId}
  {name : String} {doomed doomed' : Set VarId} {member member' : VarId → ConstraintId → Prop}

/-- Whether a variable that is not live is doomed is no matter. -/
theorem Linked.congr_doomed (hl : Linked doomed member e)
    (h : ∀ x v, e.vars.get? x = some v → (x ∈ doomed' ↔ x ∈ doomed)) : Linked doomed' member e where
  slot obj name x := by
    rw [hl.slot]
    refine exists_congr fun v ↦ and_congr_right fun hv ↦ and_congr_right fun _ ↦ ?_
    exact not_congr (h x v hv).symm
  younger := hl.younger
  registered x v y name hv hkey hx := hl.registered x v y name hv hkey ((not_congr (h x v hv)).1 hx)
  part y w name x hw hmem := by
    obtain ⟨v, hv, hkey, hx⟩ := hl.part y w name x hw hmem
    exact ⟨v, hv, hkey, (not_congr (h x v hv)).2 hx⟩
  lists := hl.lists
  live := hl.live

/-- The field of a variable becomes plain, which dooms the variable. -/
theorem Linked.doom (hl : Linked doomed member e) (hx : e.variableOf? obj name = some x)
    (value : Value) : Linked (insert x doomed) member (e.withSlot obj name (.plain value)) := by
  obtain ⟨o, ho⟩ := exists_object hx
  obtain ⟨v₀, hv₀, hkey₀, -⟩ := (hl.slot obj name x).1 hx
  refine ⟨fun obj' name' y ↦ ?_, hl.younger, ?_, ?_, hl.lists, hl.live⟩
  · rw [variableOf?_withSlot ho]
    show _ ↔ ∃ v, e.vars.get? y = some v ∧ v.key = .field obj' name' ∧ y ∉ insert x doomed
    rw [Set.mem_insert_iff, not_or]
    split
    · next h =>
      obtain ⟨rfl, rfl⟩ := h
      refine ⟨nofun, ?_⟩
      -- only the doomed variable is keyed by the field
      rintro ⟨v, hv, hkey, hne, hy⟩
      have hfield := (hl.slot obj' name' y).2 ⟨v, hv, hkey, hy⟩
      exact absurd (Option.some.inj (hfield.symm.trans hx)) hne
    · next h =>
      rw [hl.slot]
      refine exists_congr fun v ↦ and_congr_right fun hv ↦ and_congr_right fun hkey ↦ ?_
      refine (and_iff_right ?_).symm
      rintro rfl
      obtain rfl : v = v₀ := Option.some.inj (hv.symm.trans hv₀)
      cases hkey.symm.trans hkey₀
      exact h ⟨rfl, rfl⟩
  · intro y v z name' hv hkey hy
    exact hl.registered y v z name' hv hkey fun h ↦ hy (Set.mem_insert_of_mem _ h)
  · intro z w name' y hw hmem
    obtain ⟨v, hv, hkey, hy⟩ := hl.part z w name' y hw hmem
    refine ⟨v, hv, hkey, ?_⟩
    rw [Set.mem_insert_iff, not_or]
    refine ⟨?_, hy⟩
    rintro rfl
    obtain rfl : v = v₀ := Option.some.inj (hv.symm.trans hv₀)
    cases hkey.symm.trans hkey₀

/-- The slot of a field names the doomed variable that is keyed by the field, which spares the
variable. -/
theorem Linked.engage (hl : Linked (insert x doomed) member e) (hx : x ∉ doomed)
    (hv : e.vars.get? x = some v) (hkey : v.key = .field obj name)
    (free : e.variableOf? obj name = none) {o : HostObject} (ho : e.objects.get? obj = some o) :
    Linked doomed member (e.withSlot obj name (.intercepted x)) := by
  refine ⟨fun obj' name' y ↦ ?_, hl.younger, ?_, ?_, hl.lists, hl.live⟩
  · rw [variableOf?_withSlot ho]
    show _ ↔ ∃ v, e.vars.get? y = some v ∧ v.key = .field obj' name' ∧ y ∉ doomed
    constructor
    · split
      · next h =>
        obtain ⟨rfl, rfl⟩ := h
        rintro ⟨⟩
        exact ⟨v, hv, hkey, hx⟩
      · intro h
        obtain ⟨u, hu, hukey, hy⟩ := (hl.slot obj' name' y).1 h
        exact ⟨u, hu, hukey, fun h ↦ hy (Set.mem_insert_of_mem _ h)⟩
    · rintro ⟨u, hu, hukey, hy⟩
      by_cases hyx : y = x
      · subst hyx
        obtain rfl : u = v := Option.some.inj (hu.symm.trans hv)
        cases hukey.symm.trans hkey
        exact if_pos ⟨rfl, rfl⟩
      · have hfield : e.variableOf? obj' name' = some y := by
          refine (hl.slot obj' name' y).2 ⟨u, hu, hukey, ?_⟩
          rw [Set.mem_insert_iff, not_or]
          exact ⟨hyx, hy⟩
        rw [if_neg, hfield]
        rintro ⟨rfl, rfl⟩
        rw [free] at hfield
        cases hfield
  · intro y u z name' hu hukey hy
    refine hl.registered y u z name' hu hukey ?_
    rw [Set.mem_insert_iff, not_or]
    refine ⟨?_, hy⟩
    rintro rfl
    obtain rfl : u = v := Option.some.inj (hu.symm.trans hv)
    cases hukey.symm.trans hkey
  · intro z w name' y hw hmem
    obtain ⟨u, hu, hukey, hy⟩ := hl.part z w name' y hw hmem
    exact ⟨u, hu, hukey, fun h ↦ hy (Set.mem_insert_of_mem _ h)⟩

/-! ### Variables -/

/-- **One variable changes in place.** It keeps its key. Its parts may be doomed or spared if it
registers those that are not doomed, and it may list other memberships. -/
theorem Linked.modify {f : Variable → Variable} (hl : Linked doomed member e)
    (key : ∀ v, (f v).key = v.key)
    (doom : ∀ z u, e.vars.get? z = some u → (∀ name, u.key ≠ .part x name) →
      (z ∈ doomed' ↔ z ∈ doomed))
    (registered : ∀ z u name, e.vars.get? z = some u → u.key = .part x name → z ∉ doomed' →
      ∃ v, e.vars.get? x = some v ∧ (f v).parts.find? name = some z)
    (part : ∀ v name z, e.vars.get? x = some v → (name, z) ∈ (f v).parts.entries →
      ∃ u, e.vars.get? z = some u ∧ u.key = .part x name ∧ z ∉ doomed')
    (lists : ∀ v id, e.vars.get? x = some v → (id ∈ (f v).constraints.members ↔ member' x id))
    (others : ∀ y id, y ≠ x → (member' y id ↔ member y id))
    (live : ∀ id, member' x id → ∃ v, e.vars.get? x = some v) :
    Linked doomed' member' { e with vars := e.vars.modify x f } := by
  have hbefore : ∀ z w, (e.vars.modify x f).get? z = some w →
      ∃ u, e.vars.get? z = some u ∧ w.key = u.key := by
    intro z w hw
    obtain ⟨u, hu, ⟨-, rfl⟩ | ⟨-, rfl⟩⟩ := exists_of_modify hw
    · exact ⟨u, hu, key u⟩
    · exact ⟨w, hu, rfl⟩
  have hafter : ∀ z u, e.vars.get? z = some u →
      ∃ w, (e.vars.modify x f).get? z = some w ∧ w.key = u.key ∧ (z = x → w = f u) ∧
        (z ≠ x → w = u) := by
    intro z u hu
    refine ⟨_, get?_modify_of_get? hu, ?_⟩
    split
    · next h => exact ⟨key u, fun _ ↦ rfl, fun hne ↦ absurd h hne⟩
    · next h => exact ⟨rfl, fun heq ↦ absurd heq h, fun _ ↦ rfl⟩
  refine ⟨fun obj name z ↦ ?_, ?_, ?_, ?_, ?_, ?_⟩
  · refine (hl.slot obj name z).trans ?_
    constructor
    · rintro ⟨u, hu, hukey, hz⟩
      obtain ⟨w, hw, hwkey, -⟩ := hafter z u hu
      have hfield : ∀ name', u.key ≠ .part x name' := fun name' h ↦ by cases hukey.symm.trans h
      exact ⟨w, hw, hwkey.trans hukey, (not_congr (doom z u hu hfield)).2 hz⟩
    · rintro ⟨w, hw, hwkey, hz⟩
      obtain ⟨u, hu, heq⟩ := hbefore z w hw
      have hukey := heq.symm.trans hwkey
      have hfield : ∀ name', u.key ≠ .part x name' := fun name' h ↦ by cases hukey.symm.trans h
      exact ⟨u, hu, hukey, (not_congr (doom z u hu hfield)).1 hz⟩
  · intro z w y name hw hwkey
    obtain ⟨u, hu, hukey⟩ := hbefore z w hw
    exact hl.younger z u y name hu (hukey.symm.trans hwkey)
  · intro z w y name hw hwkey hz
    obtain ⟨u, hu, heq⟩ := hbefore z w hw
    have hukey := heq.symm.trans hwkey
    by_cases hy : y = x
    · subst hy
      obtain ⟨v, hv, hfind⟩ := registered z u name hu hukey hz
      obtain ⟨v', hv', -, hself, -⟩ := hafter y v hv
      exact ⟨v', hv', by rw [hself rfl, hfind]⟩
    · have hother : ∀ name', u.key ≠ .part x name' := by
        intro name' h
        cases hukey.symm.trans h
        exact hy rfl
      obtain ⟨q, hq, hfind⟩ := hl.registered z u y name hu hukey ((not_congr (doom z u hu hother)).1 hz)
      obtain ⟨q', hq', -, -, hne⟩ := hafter y q hq
      exact ⟨q', hq', by rw [hne hy, hfind]⟩
  · intro y w name z hw hmem
    obtain ⟨u, hu, ⟨rfl, rfl⟩ | ⟨hne, rfl⟩⟩ := exists_of_modify hw
    · obtain ⟨q, hq, hqkey, hz⟩ := part u name z hu hmem
      obtain ⟨q', hq', hq'key, -⟩ := hafter z q hq
      exact ⟨q', hq', hq'key.trans hqkey, hz⟩
    · obtain ⟨q, hq, hqkey, hz⟩ := hl.part y w name z hu hmem
      have hother : ∀ name', q.key ≠ .part x name' := by
        intro name' h
        cases hqkey.symm.trans h
        exact hne rfl
      obtain ⟨q', hq', hq'key, -⟩ := hafter z q hq
      exact ⟨q', hq', hq'key.trans hqkey, (not_congr (doom z q hq hother)).2 hz⟩
  · intro z w id hw
    obtain ⟨u, hu, ⟨rfl, rfl⟩ | ⟨hne, rfl⟩⟩ := exists_of_modify hw
    · exact lists u id hu
    · exact (hl.lists z w id hu).trans (others z id hne).symm
  · intro z id hz
    obtain ⟨u, hu⟩ : ∃ u, e.vars.get? z = some u := by
      by_cases h : z = x
      · subst h
        exact live id hz
      · exact hl.live z id ((others z id h).1 hz)
    obtain ⟨w, hw, -⟩ := hafter z u hu
    exact ⟨w, hw⟩

/-- A variable lists other memberships. -/
theorem Linked.relist {f : Variable → Variable} (hl : Linked doomed member e)
    (key : ∀ v, (f v).key = v.key) (parts : ∀ v, (f v).parts = v.parts)
    (lists : ∀ v id, e.vars.get? x = some v → (id ∈ (f v).constraints.members ↔ member' x id))
    (others : ∀ y id, y ≠ x → (member' y id ↔ member y id))
    (live : ∀ id, member' x id → ∃ v, e.vars.get? x = some v) :
    Linked doomed member' { e with vars := e.vars.modify x f } := by
  refine hl.modify key (fun _ _ _ _ ↦ Iff.rfl) ?_ ?_ lists others live
  · intro z u name hu hkey hz
    obtain ⟨v, hv, hfind⟩ := hl.registered z u x name hu hkey hz
    exact ⟨v, hv, by rw [parts, hfind]⟩
  · intro v name z hv hmem
    exact hl.part x v name z hv (parts v ▸ hmem)

/-- The variable that a part belongs to forgets it, which dooms the part. -/
theorem Linked.disown (hl : Linked doomed member e) (hv : e.vars.get? x = some v)
    (hkey : v.key = .part y name) (hx : x ∉ doomed) :
    Linked (insert x doomed) member
      { e with vars := e.vars.modify y fun p ↦ { p with parts := p.parts.erase name } } := by
  obtain ⟨p, hp, hfind⟩ := hl.registered x v y name hv hkey hx
  refine hl.modify (fun _ ↦ rfl) ?_ ?_ ?_ (fun p id hp ↦ hl.lists y p id hp) (fun _ _ _ ↦ Iff.rfl)
    (hl.live y)
  · intro z u hu hother
    rw [Set.mem_insert_iff, or_iff_right]
    rintro rfl
    obtain rfl : u = v := Option.some.inj (hu.symm.trans hv)
    exact hother name hkey
  · intro z u name' hu hukey hz
    rw [Set.mem_insert_iff, not_or] at hz
    obtain ⟨q, hq, hqfind⟩ := hl.registered z u y name' hu hukey hz.2
    obtain rfl : q = p := Option.some.inj (hq.symm.trans hp)
    refine ⟨q, hq, ?_⟩
    dsimp only
    -- the name was registered once, and for the part that is doomed now
    rw [SortedMap.find?_erase_of_ne _ fun h ↦ hz.1 (Option.some.inj ?_), hqfind]
    rw [← hqfind, h, hfind]
  · intro q name' z hq hmem
    obtain ⟨hmem, hname⟩ := List.mem_filter.1 hmem
    obtain ⟨u, hu, hukey, hz⟩ := hl.part y q name' z hq hmem
    refine ⟨u, hu, hukey, ?_⟩
    rw [Set.mem_insert_iff, not_or]
    refine ⟨?_, hz⟩
    rintro rfl
    obtain rfl : u = v := Option.some.inj (hu.symm.trans hv)
    cases hukey.symm.trans hkey
    exact of_decide_eq_true hname rfl

/-- The variable that a doomed part belongs to registers it, which spares the part. -/
theorem Linked.register (hl : Linked (insert x doomed) member e) (hx : x ∉ doomed)
    (hv : e.vars.get? x = some v) (hkey : v.key = .part y name) (hw : e.vars.get? y = some w)
    (free : w.parts.find? name = none) : Linked doomed member
      { e with vars := e.vars.modify y fun p ↦ { p with parts := p.parts.insert name x } } := by
  refine hl.modify (fun _ ↦ rfl) ?_ ?_ ?_ (fun p id hp ↦ hl.lists y p id hp) (fun _ _ _ ↦ Iff.rfl)
    (hl.live y)
  · intro z u hu hother
    rw [Set.mem_insert_iff, or_iff_right]
    rintro rfl
    obtain rfl : u = v := Option.some.inj (hu.symm.trans hv)
    exact hother name hkey
  · intro z u name' hu hukey hz
    refine ⟨w, hw, ?_⟩
    dsimp only
    by_cases hzx : z = x
    · subst hzx
      obtain rfl : u = v := Option.some.inj (hu.symm.trans hv)
      cases hukey.symm.trans hkey
      exact SortedMap.find?_insert_self ..
    · have hz' : z ∉ insert x doomed := by
        rw [Set.mem_insert_iff, not_or]
        exact ⟨hzx, hz⟩
      obtain ⟨q, hq, hfind⟩ := hl.registered z u y name' hu hukey hz'
      obtain rfl : q = w := Option.some.inj (hq.symm.trans hw)
      rw [SortedMap.find?_insert_of_ne, hfind]
      rintro rfl
      rw [free] at hfind
      cases hfind
  · intro q name' z hq hmem
    have hinserted : (name', z) ∈ SortedMap.insertIn name x q.parts.entries := hmem
    rcases SortedMap.mem_insertIn hinserted with heq | hmem
    · cases heq
      exact ⟨v, hv, hkey, hx⟩
    · obtain ⟨u, hu, hukey, hz⟩ := hl.part y q name' z hq hmem
      exact ⟨u, hu, hukey, fun h ↦ hz (Set.mem_insert_of_mem _ h)⟩

/-- A variable comes into being, doomed as nothing refers to it. -/
theorem Linked.allocate (hl : Linked doomed member e) (parts : v.parts = ∅)
    (constraints : v.constraints = ∅)
    (younger : ∀ y name, v.key = .part y name → y < e.vars.next) :
    Linked (insert e.vars.next doomed) member { e with vars := e.vars.insert v } := by
  have hold : ∀ z u, e.vars.get? z = some u → z ≠ e.vars.next := by
    rintro z u hu rfl
    rw [Arena.get?_next] at hu
    cases hu
  have hget : ∀ z u, (e.vars.insert v).get? z = some u →
      z = e.vars.next ∧ u = v ∨ z ≠ e.vars.next ∧ e.vars.get? z = some u :=
    fun _ _ ↦ Arena.of_get?_insert
  have hkept : ∀ z u, e.vars.get? z = some u → (e.vars.insert v).get? z = some u :=
    fun _ _ ↦ Arena.get?_insert_of_get?
  refine ⟨fun obj name z ↦ ?_, ?_, ?_, ?_, ?_, ?_⟩
  · refine (hl.slot obj name z).trans ?_
    constructor
    · rintro ⟨u, hu, hkey, hz⟩
      refine ⟨u, hkept z u hu, hkey, ?_⟩
      rw [Set.mem_insert_iff, not_or]
      exact ⟨hold z u hu, hz⟩
    · rintro ⟨u, hu, hkey, hz⟩
      rw [Set.mem_insert_iff, not_or] at hz
      obtain ⟨rfl, -⟩ | ⟨-, hu⟩ := hget z u hu
      · exact absurd rfl hz.1
      · exact ⟨u, hu, hkey, hz.2⟩
  · intro z u y name hu hkey
    obtain ⟨rfl, rfl⟩ | ⟨-, hu⟩ := hget z u hu
    · exact younger y name hkey
    · exact hl.younger z u y name hu hkey
  · intro z u y name hu hkey hz
    rw [Set.mem_insert_iff, not_or] at hz
    obtain ⟨rfl, -⟩ | ⟨-, hu⟩ := hget z u hu
    · exact absurd rfl hz.1
    · obtain ⟨w, hw, hfind⟩ := hl.registered z u y name hu hkey hz.2
      exact ⟨w, hkept y w hw, hfind⟩
  · intro y w name z hw hmem
    obtain ⟨-, rfl⟩ | ⟨-, hw⟩ := hget y w hw
    · rw [parts] at hmem
      cases hmem
    · obtain ⟨u, hu, hkey, hz⟩ := hl.part y w name z hw hmem
      refine ⟨u, hkept z u hu, hkey, ?_⟩
      rw [Set.mem_insert_iff, not_or]
      exact ⟨hold z u hu, hz⟩
  · intro z u id hu
    obtain ⟨rfl, rfl⟩ | ⟨-, hu⟩ := hget z u hu
    · rw [constraints]
      refine ⟨nofun, fun h ↦ ?_⟩
      obtain ⟨w, hw⟩ := hl.live _ id h
      exact absurd rfl (hold _ w hw)
    · exact hl.lists z u id hu
  · intro z id hz
    obtain ⟨u, hu⟩ := hl.live z id hz
    exact ⟨u, hkept z u hu⟩

/-- A variable is a part of another one. -/
def PartOf (e : Engine) (x y : VarId) : Prop :=
  ∃ v name, e.vars.get? x = some v ∧ v.key = .part y name

/-- A doomed variable goes, which dooms its parts. -/
theorem Linked.remove (hl : Linked doomed member e) (hx : ∀ v, e.vars.get? x = some v → x ∈ doomed) :
    Linked (doomed ∪ {y | e.PartOf y x}) (fun y id ↦ y ≠ x ∧ member y id)
      { e with vars := e.vars.remove x } := by
  have hget : ∀ y w, (e.vars.remove x).get? y = some w ↔ y ≠ x ∧ e.vars.get? y = some w := by
    intro y w
    rw [Arena.get?_remove]
    split
    · next h => exact ⟨nofun, fun h' ↦ absurd h h'.1⟩
    · next h => exact ⟨fun h' ↦ ⟨h, h'⟩, And.right⟩
  refine ⟨fun obj name y ↦ ?_, ?_, ?_, ?_, ?_, ?_⟩
  · refine (hl.slot obj name y).trans (exists_congr fun v ↦ ?_)
    show _ ↔ (e.vars.remove x).get? y = some v ∧ _
    rw [hget]
    constructor
    · rintro ⟨hv, hkey, hy⟩
      refine ⟨⟨fun h ↦ hy (h ▸ hx v (h ▸ hv)), hv⟩, hkey, ?_⟩
      rintro (h | ⟨w, name', hw, hpart⟩)
      · exact hy h
      · obtain rfl : w = v := Option.some.inj (hw.symm.trans hv)
        cases hkey.symm.trans hpart
    · rintro ⟨⟨-, hv⟩, hkey, hy⟩
      exact ⟨hv, hkey, fun h ↦ hy (.inl h)⟩
  · intro y v z name hv
    exact hl.younger y v z name ((hget y v).1 hv).2
  · intro y v z name hv' hkey hy
    have hv := ((hget y v).1 hv').2
    obtain ⟨w, hw, hfind⟩ := hl.registered y v z name hv hkey fun h ↦ hy (.inl h)
    refine ⟨w, (hget z w).2 ⟨fun h ↦ ?_, hw⟩, hfind⟩
    exact hy (.inr ⟨v, name, hv, h ▸ hkey⟩)
  · intro z w name y hw hmem
    obtain ⟨hz, hw⟩ := (hget z w).1 hw
    obtain ⟨v, hv, hkey, hy⟩ := hl.part z w name y hw hmem
    refine ⟨v, (hget y v).2 ⟨fun h ↦ hy (h ▸ hx v (h ▸ hv)), hv⟩, hkey, ?_⟩
    rintro (h | ⟨u, name', hu, hpart⟩)
    · exact hy h
    · obtain rfl : u = v := Option.some.inj (hu.symm.trans hv)
      cases hkey.symm.trans hpart
      exact hz rfl
  · intro y v id hv
    obtain ⟨hy, hv⟩ := (hget y v).1 hv
    exact (hl.lists y v id hv).trans (and_iff_right hy).symm
  · rintro y id ⟨hy, hmember⟩
    obtain ⟨v, hv⟩ := hl.live y id hmember
    exact ⟨v, (hget y v).2 ⟨hy, hv⟩⟩

end Engine

end LiveConstraints

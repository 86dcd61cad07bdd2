import LiveConstraints.Engine.Fields
import LiveConstraints.Proofs.Reading
/-!
# Objects and fields from outside

Objects come, fields that nothing intercepts are written, and hooks are registered. All of that changes
objects, and none of it which variable intercepts which field (`Engine.Furnishes`). What intercepts a
field after its slot was set is said by `Engine.variableOf?_withSlot`.
-/

namespace LiveConstraints

variable {e e' : Engine} {obj : ObjectId} {name : String} {x : VarId}

/-- The variable that intercepts a field with this slot. -/
def FieldSlot.variable? : FieldSlot → Option VarId
  | .plain _ => none
  | .intercepted x => some x

namespace Engine

/-! ### Slots -/

theorem variableOf?_eq (e : Engine) (obj : ObjectId) (name : String) : e.variableOf? obj name =
    (e.objects.get? obj).bind fun o ↦ (o.fields.find? name).bind FieldSlot.variable? := by
  unfold variableOf? slot?
  cases e.objects.get? obj with
  | none => rfl
  | some o =>
    dsimp only [Option.bind_some]
    cases o.fields.find? name with
    | none => rfl
    | some slot => cases slot <;> rfl

/-- A field gets another slot. -/
def withSlot (e : Engine) (obj : ObjectId) (name : String) (slot : FieldSlot) : Engine :=
  { e with objects := e.objects.modify obj fun o ↦ { o with fields := o.fields.insert name slot } }

theorem slot?_withSlot {o : HostObject} (ho : e.objects.get? obj = some o) (slot : FieldSlot)
    (obj' : ObjectId) (name' : String) : (e.withSlot obj name slot).slot? obj' name'
      = if obj' = obj ∧ name' = name then .ok slot else e.slot? obj' name' := by
  unfold slot? withSlot
  rw [Arena.get?_modify]
  by_cases hobj : obj' = obj
  · subst hobj
    rw [if_pos rfl, ho, Option.map_some]
    dsimp only
    rw [SortedMap.find?_insert]
    by_cases hname : name' = name
    · rw [if_pos hname, if_pos ⟨rfl, hname⟩]
    · rw [if_neg hname, if_neg fun h ↦ hname h.2]
  · rw [if_neg hobj, if_neg fun h ↦ hobj h.1]

theorem slot?_withSlot_self {o : HostObject} (ho : e.objects.get? obj = some o)
    (slot : FieldSlot) : (e.withSlot obj name slot).slot? obj name = .ok slot := by
  rw [slot?_withSlot ho, if_pos ⟨rfl, rfl⟩]

theorem variableOf?_withSlot {o : HostObject} (ho : e.objects.get? obj = some o)
    (slot : FieldSlot) (obj' : ObjectId) (name' : String) :
    (e.withSlot obj name slot).variableOf? obj' name'
      = if obj' = obj ∧ name' = name then slot.variable? else e.variableOf? obj' name' := by
  rw [variableOf?, slot?_withSlot ho, variableOf?]
  by_cases hfield : obj' = obj ∧ name' = name
  · rw [if_pos hfield, if_pos hfield]
    cases slot <;> rfl
  · rw [if_neg hfield, if_neg hfield]

theorem setSlot_eq {o : HostObject} (ho : e.objects.get? obj = some o) (slot : FieldSlot) :
    Call.setSlot obj name slot e = (.ok (), e.withSlot obj name slot) := by
  have hlookup := Call.objectAt_eq obj e
  rw [ho] at hlookup
  exact Call.bind_of_ok hlookup

/-- An intercepted field belongs to an object. -/
theorem exists_object (h : e.variableOf? obj name = some x) :
    ∃ o, e.objects.get? obj = some o := by
  rw [variableOf?_eq] at h
  obtain ⟨o, ho, -⟩ := Option.bind_eq_some_iff.1 h
  exact ⟨o, ho⟩

/-- Only objects differ, and the same variables intercept the same fields. -/
structure Furnishes (e e' : Engine) : Prop where
  same : e' = { e with objects := e'.objects }
  slots : ∀ obj name, e'.variableOf? obj name = e.variableOf? obj name

instance : IsPreorder Engine Furnishes where
  refl _ := ⟨rfl, fun _ _ ↦ rfl⟩
  trans e e' e'' h h' := by
    refine ⟨?_, fun obj name ↦ (h'.slots obj name).trans (h.slots obj name)⟩
    rw [h'.same, h.same]

end Engine

open Engine

namespace Call

/-! ### Operations -/

/-- The fields of a new object are plain. -/
theorem plain_of_find? {fields : List (String × Value)} {name : String} {slot : FieldSlot}
    (h : (SortedMap.ofList (fields.map fun f ↦ (f.1, FieldSlot.plain f.2))).find? name = some slot) :
    slot.variable? = none := by
  have hfold : ∀ (fields : List (String × Value)) (m : SortedMap String FieldSlot),
      (∀ name slot, m.find? name = some slot → slot.variable? = none) → ∀ name slot,
      ((fields.map fun f ↦ (f.1, FieldSlot.plain f.2)).foldl (fun m e ↦ m.insert e.1 e.2) m).find? name
        = some slot → slot.variable? = none := by
    intro fields
    induction fields with
    | nil => exact fun m hm ↦ hm
    | cons f fields ih =>
      refine fun m hm ↦ ih _ fun name slot h ↦ ?_
      rw [SortedMap.find?_insert] at h
      split at h
      · cases h
        rfl
      · exact hm name slot h
  exact hfold fields ∅ (fun _ _ h ↦ by cases h) name slot h

theorem furnishes_createObject (fields : List (String × Value)) :
    Within Furnishes e (createObject fields) := by
  refine .get_bind (.modify_bind ⟨rfl, fun obj name ↦ ?_⟩ (.pure _))
  rw [variableOf?_eq, variableOf?_eq]
  dsimp only
  rw [Arena.get?_insert]
  split
  · next hobj =>
    rw [hobj, Arena.get?_next, Option.bind_none, Option.bind_some]
    refine Option.bind_eq_none_iff.2 fun slot hslot ↦ ?_
    exact plain_of_find? hslot
  · rfl

/-- A field that nothing watches gets another value. -/
theorem furnishes_setPlain (free : e.variableOf? obj name = none)
    (value : Value) : Within Furnishes e (setSlot obj name (.plain value)) := by
  refine .objectAt_bind fun o ho _ ↦ ⟨rfl, fun obj' name' ↦ ?_⟩
  refine (variableOf?_withSlot ho (.plain value) obj' name').trans ?_
  split
  · next h =>
    obtain ⟨rfl, rfl⟩ := h
    exact free.symm
  · rfl

/-- Looking a field up, or making it, finds its variable if it has one. -/
theorem gives_slotOrCreate (obj : ObjectId) (field : String) :
    Gives Furnishes e (slotOrCreate obj field) fun slot e' ↦
      e'.variableOf? obj field = slot.variable? := by
  refine .objectAt_bind fun o ho ↦ ?_
  have hfield : e.variableOf? obj field = (o.fields.find? field).bind FieldSlot.variable? := by
    rw [variableOf?_eq, ho, Option.bind_some]
  cases hfind : o.fields.find? field with
  | some slot =>
    rw [hfind, Option.bind_some] at hfield
    exact .pure hfield
  | none =>
    rw [hfind, Option.bind_none] at hfield
    exact (furnishes_setPlain hfield .none).bind_gives fun _ e₁ _ h₁ ↦
      .pure ((h₁.slots obj field).trans hfield)

theorem furnishes_onWrite (obj : ObjectId) (field : String) (hook : Hook) :
    Within Furnishes e (onWrite obj field hook) := by
  refine .objectAt_bind fun o _ _ ↦ ⟨rfl, fun obj' name ↦ ?_⟩
  show Engine.variableOf? { e with objects := e.objects.modify obj fun o ↦
    { o with hooks := o.hooks.insert field hook } } obj' name = _
  rw [variableOf?_eq, variableOf?_eq]
  dsimp only
  rw [Arena.get?_modify]
  split
  · cases e.objects.get? obj' <;> rfl
  · rfl

end Call

end LiveConstraints

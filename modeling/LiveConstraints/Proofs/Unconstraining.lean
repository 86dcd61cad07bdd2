import LiveConstraints.Proofs.Quiescence.Answering
import LiveConstraints.Proofs.Refusal
import LiveConstraints.Proofs.Returning
import Mathlib.Data.Finset.Card
/-!
# Unconstraining

Unconstraining a field makes it plain and goes on with the fields of the object that it holds.
Objects may hold each other in a circle. What ends the walk is that each release takes a variable
away, and that a field which is plain is passed over.

`Engine.WithinReach` says which fields should be released, in terms of the engine before the first
release. The walk decides in engines in which some fields are plain already, and finds the same ones.
Three facts carry this:

* no field reports another value after a release, so that a field which is visited later still holds
  the same object (`Engine.Loosens.reported`);
* what is reached in a later engine was reached before (`Engine.WithinReach.of_loosens`);
* where the walk has released a field, no field of the object that it holds is intercepted in the end
  (`Engine.Frees.closed`), so a way through a field that was released earlier has been followed.

A variable that is dropped is not taken away from the solvers, and variables that stay have what they
had. So they read the same, if what is remembered is right (`Engine.Current`).
-/

namespace LiveConstraints

open Engine

variable {config : Setup} {e e' e'' : Engine} {x y : VarId} {obj inner : ObjectId}
  {field name : String} {roots roots' : Set (ObjectId × String)}

namespace Engine

/-! ### What should be released -/

/-- The fields of an object. -/
def fieldsOf (e : Engine) (obj : ObjectId) : Set (ObjectId × String) :=
  {p | p.1 = obj ∧ ∃ slot, e.slot? p.1 p.2 = .ok slot}

theorem mem_fieldsOf_of_intercepted (hx : (e.variableOf? obj field).isSome) :
    (obj, field) ∈ e.fieldsOf obj := by
  obtain ⟨x, hx⟩ := Option.isSome_iff_exists.1 hx
  exact ⟨rfl, _, variableOf?_eq_some.1 hx⟩

/-- The fields that are reached from some fields: these, and for each intercepted one that holds an
object, all fields of that object. -/
inductive WithinReach (e : Engine) (roots : Set (ObjectId × String)) : ObjectId → String → Prop
  /-- A field to start from. -/
  | root {obj : ObjectId} {field : String} (h : (obj, field) ∈ roots) : WithinReach e roots obj field
  /-- A field of an object that is held. -/
  | held {obj inner : ObjectId} {field name : String} (before : WithinReach e roots obj field)
      (intercepted : (e.variableOf? obj field).isSome)
      (holds : e.reported? obj field = some (.object inner))
      (ofInner : (inner, name) ∈ e.fieldsOf inner) : WithinReach e roots inner name

/-- Fields report no object that does not exist. -/
def Named (e : Engine) : Prop := ∀ obj field inner, e.reported? obj field = some (.object inner) →
  (e.objects.get? inner).isSome

/-- A field was intercepted, and is not any more. -/
def Freed (e e' : Engine) (obj : ObjectId) (field : String) : Prop :=
  (e.variableOf? obj field).isSome ∧ e'.variableOf? obj field = none

/-- Some intercepted fields have become plain, and every field reports what it did. -/
structure Loosens (e e' : Engine) : Prop where
  size : e'.vars.cells.size = e.vars.cells.size
  gone : ∀ x, e.vars.get? x = none → e'.vars.get? x = none
  objects : ∀ obj, (e'.objects.get? obj).isSome = (e.objects.get? obj).isSome
  slots : ∀ obj field, e'.slot? obj field = e.slot? obj field ∨
    (e.variableOf? obj field).isSome ∧ ∃ v, e'.slot? obj field = .ok (.plain v)
  reported : ∀ obj field, e'.reported? obj field = e.reported? obj field

instance : IsPreorder Engine Loosens where
  refl _ := ⟨rfl, fun _ h ↦ h, fun _ ↦ rfl, fun _ _ ↦ .inl rfl, fun _ _ ↦ rfl⟩
  trans e e' e'' h h' := by
    refine ⟨h'.size.trans h.size, fun x hx ↦ h'.gone x (h.gone x hx),
      fun obj ↦ (h'.objects obj).trans (h.objects obj), fun obj field ↦ ?_,
      fun obj field ↦ (h'.reported obj field).trans (h.reported obj field)⟩
    rcases h'.slots obj field with hsame' | ⟨hx', hplain'⟩
    · rw [hsame']
      exact h.slots obj field
    · rcases h.slots obj field with hsame | ⟨hx, -⟩
      · rw [variableOf?, hsame, ← variableOf?] at hx'
        exact .inr ⟨hx', hplain'⟩
      · exact .inr ⟨hx, hplain'⟩

namespace Loosens

variable (h : Loosens e e')
include h

/-- A field that is intercepted was so before, by the same variable. -/
theorem intercepted (hx : e'.variableOf? obj field = some x) : e.variableOf? obj field = some x := by
  rcases h.slots obj field with hsame | ⟨-, v, hplain⟩
  · rwa [variableOf?, hsame, ← variableOf?] at hx
  · rw [variableOf?_eq_some, hplain] at hx
    cases hx

/-- A field that is plain stays so. -/
theorem plain (hx : e.variableOf? obj field = none) : e'.variableOf? obj field = none := by
  cases hx' : e'.variableOf? obj field with
  | none => rfl
  | some x => exact absurd (h.intercepted hx') (by simp [hx])

/-- There are the same fields. -/
theorem fieldsOf_eq (obj : ObjectId) : e'.fieldsOf obj = e.fieldsOf obj := by
  ext ⟨obj', field⟩
  have hexists :
      (∃ slot, e'.slot? obj' field = .ok slot) ↔ ∃ slot, e.slot? obj' field = .ok slot := by
    rcases h.slots obj' field with hsame | ⟨hx, v, hplain⟩
    · rw [hsame]
    · obtain ⟨x, hx⟩ := Option.isSome_iff_exists.1 hx
      exact iff_of_true ⟨_, hplain⟩ ⟨_, variableOf?_eq_some.1 hx⟩
  exact and_congr_right fun _ ↦ hexists

theorem named (hnamed : e.Named) : e'.Named := by
  intro obj field inner hholds
  rw [h.reported] at hholds
  rw [h.objects]
  exact hnamed obj field inner hholds

end Loosens

namespace WithinReach

/-- What is reached after some fields became plain was reached before. -/
theorem of_loosens (h : Loosens e e') (hreached : WithinReach e' roots obj field) :
    WithinReach e roots obj field := by
  induction hreached with
  | root hroot => exact .root hroot
  | held _ intercepted holds ofInner ih =>
    obtain ⟨x, hx⟩ := Option.isSome_iff_exists.1 intercepted
    rw [h.reported] at holds
    rw [h.fieldsOf_eq] at ofInner
    exact .held ih (Option.isSome_iff_exists.2 ⟨x, h.intercepted hx⟩) holds ofInner

/-- What is reached from fields that are reached is reached. -/
theorem trans (hroots : ∀ p ∈ roots, WithinReach e roots' p.1 p.2)
    (hreached : WithinReach e roots obj field) : WithinReach e roots' obj field := by
  induction hreached with
  | root hroot => exact hroots _ hroot
  | held _ intercepted holds ofInner ih => exact .held ih intercepted holds ofInner

end WithinReach

/-! ### Objects that are named -/

theorem reported?_eq_object : e.reported? obj field = some (.object inner) ↔
    (e.reported? obj field).bind Value.asObject? = some inner := by
  rcases e.reported? obj field with - | v
  · simp
  · cases v <;> simp [Value.asObject?]

instance : Decidable (e.reported? obj field = some (.object inner)) :=
  decidable_of_iff' _ reported?_eq_object

/-- Whether the fields of an object report objects that exist only. -/
def showsNamed (e : Engine) (obj : ObjectId) (o : HostObject) : Bool :=
  o.fields.keys.all fun field ↦
    match e.reported? obj field with
    | some (.object inner) => (e.objects.get? inner).isSome
    | _ => true

theorem named_iff : e.Named ↔ ∀ entry ∈ e.objects.live, e.showsNamed entry.1 entry.2 = true := by
  constructor
  · rintro h ⟨obj, o⟩ -
    refine List.all_eq_true.2 fun field _ ↦ ?_
    split
    · next inner hholds => exact h obj field inner hholds
    · rfl
  · intro h obj field inner hholds
    cases hslot : e.slot? obj field with
    | error err => simp [reported?_of_error hslot] at hholds
    | ok content =>
      cases ho : e.objects.get? obj with
      | none => simp [slot?, ho] at hslot
      | some o =>
        have hkey : field ∈ o.fields.keys := by
          rw [SortedMap.mem_keys_iff]
          by_contra hnone
          simp [slot?, ho, Option.not_isSome_iff_eq_none.1 hnone] at hslot
        simpa [hholds] using List.all_eq_true.1 (h (obj, o) (Arena.mem_live.2 ho)) field hkey

instance : Decidable e.Named := decidable_of_iff' _ named_iff

/-! ### What has been released -/

/-- How many variables are live. -/
def liveCount (e : Engine) : Nat :=
  ((Finset.range e.vars.cells.size).filter fun i ↦ (e.vars.get? ⟨i⟩).isSome).card

theorem liveCount_le (e : Engine) : e.liveCount ≤ e.vars.cells.size := by
  calc e.liveCount ≤ (Finset.range e.vars.cells.size).card := Finset.card_filter_le _ _
    _ = e.vars.cells.size := Finset.card_range _

theorem liveCount_pos {v : Variable} (hv : e.vars.get? x = some v) : 0 < e.liveCount :=
  Finset.card_pos.2 ⟨x.index, Finset.mem_filter.2
    ⟨Finset.mem_range.2 (Arena.lt_next_of_get? hv), by simp [hv]⟩⟩

/-- Even when every variable has been released nothing will be remembered from so long ago that its
generation came round. -/
structure Abiding (e : Engine) : Prop where
  room : e.liveCount < UInt64.size
  memos : ∀ x v g d, e.vars.get? x = some v → v.definingMemo = some (g, d) →
    e.guards.generation + e.liveCount < g + UInt64.size

theorem abiding_of_lt (h : e.guards.generation + e.liveCount < UInt64.size) : e.Abiding :=
  ⟨by omega, fun _ _ _ _ _ _ ↦ by omega⟩

/-- What unconstraining starts from. -/
structure Tidy (e : Engine) : Prop where
  tied : e.Tied
  current : e.Current
  named : e.Named
  abiding : e.Abiding

/-- Fields that are reached have become plain, among them those to start from. -/
structure Frees (roots : Set (ObjectId × String)) (e e' : Engine) : Prop extends Loosens e e' where
  tidy : e'.Tidy
  start : ∀ p ∈ roots, e'.variableOf? p.1 p.2 = none
  reached : ∀ obj field, Freed e e' obj field → WithinReach e roots obj field
  closed : ∀ obj field inner name, Freed e e' obj field →
    e.reported? obj field = some (.object inner) → e'.variableOf? inner name = none

namespace Frees

/-- Nothing is to be released. -/
theorem nothing (he : e.Tidy) (start : ∀ p ∈ roots, e.variableOf? p.1 p.2 = none) :
    Frees roots e e where
  toLoosens := refl_of Loosens e
  tidy := he
  start := start
  reached obj field hfreed := by simp [Freed, hfreed.2] at hfreed
  closed obj field inner name hfreed := by simp [Freed, hfreed.2] at hfreed

/-- A field that was released in two turns was released in one of them. -/
theorem freed_cases (hfreed : Freed e e'' obj field) :
    Freed e e' obj field ∨ Freed e' e'' obj field := by
  cases hx : e'.variableOf? obj field with
  | none => exact .inl ⟨hfreed.1, hx⟩
  | some x => exact .inr ⟨by simp [hx], hfreed.2⟩

/-- Some fields after others. -/
theorem union (h : Frees roots e e') (h' : Frees roots' e' e'') : Frees (roots ∪ roots') e e'' where
  toLoosens := trans_of Loosens h.toLoosens h'.toLoosens
  tidy := h'.tidy
  start p hp := hp.elim (fun hp ↦ h'.plain (h.start p hp)) (h'.start p)
  reached obj field hfreed := by
    rcases freed_cases hfreed with hfirst | hsecond
    · exact (h.reached obj field hfirst).trans fun p hp ↦ .root (.inl hp)
    · exact ((h'.reached obj field hsecond).of_loosens h.toLoosens).trans fun p hp ↦ .root (.inr hp)
  closed obj field inner name hfreed hholds := by
    rcases freed_cases hfreed with hfirst | hsecond
    · exact h'.plain (h.closed obj field inner name hfirst hholds)
    · exact h'.closed obj field inner name hsecond (by rw [h.reported, hholds])

/-- What is reached is plain in the end. -/
theorem plain_of_reached (h : Frees roots e e') (hreached : WithinReach e roots obj field) :
    e'.variableOf? obj field = none := by
  induction hreached with
  | root hroot => exact h.start _ hroot
  | held _ intercepted holds _ ih => exact h.closed _ _ _ _ ⟨intercepted, ih⟩ holds

/-- **Just what is reached is released.** -/
theorem freed_iff (h : Frees roots e e') :
    Freed e e' obj field ↔ (e.variableOf? obj field).isSome ∧ WithinReach e roots obj field := by
  constructor
  · intro hfreed
    exact ⟨hfreed.1, h.reached obj field hfreed⟩
  · rintro ⟨hx, hreached⟩
    exact ⟨hx, h.plain_of_reached hreached⟩

end Frees

/-! ### One release -/

theorem Loosens.live_subset (h : Loosens e e') :
    (Finset.range e'.vars.cells.size).filter (fun i ↦ (e'.vars.get? ⟨i⟩).isSome) ⊆
      (Finset.range e.vars.cells.size).filter fun i ↦ (e.vars.get? ⟨i⟩).isSome := by
  intro i hi
  obtain ⟨hlt, hlive⟩ := Finset.mem_filter.1 hi
  refine Finset.mem_filter.2 ⟨h.size ▸ hlt, ?_⟩
  by_contra hdead
  rw [Bool.not_eq_true, Option.isSome_eq_false_iff, Option.isNone_iff_eq_none] at hdead
  simp [h.gone _ hdead] at hlive

theorem Loosens.liveCount_le (h : Loosens e e') : e'.liveCount ≤ e.liveCount :=
  Finset.card_le_card h.live_subset

theorem Loosens.liveCount_lt (h : Loosens e e') {v : Variable} (hv : e.vars.get? x = some v)
    (hgone : e'.vars.get? x = none) : e'.liveCount < e.liveCount := by
  refine Finset.card_lt_card (Finset.ssubset_iff_of_subset h.live_subset |>.2 ⟨x.index, ?_, ?_⟩)
  · exact Finset.mem_filter.2 ⟨Finset.mem_range.2 (Arena.lt_next_of_get? hv), by simp [hv]⟩
  · intro hmem
    have hlive := (Finset.mem_filter.1 hmem).2
    simp [hgone] at hlive

/-- One field has become plain. -/
structure LetsGo (obj : ObjectId) (field : String) (e e' : Engine) : Prop extends Loosens e e' where
  tidy : e'.Tidy
  start : e'.variableOf? obj field = none
  only : ∀ obj' field', Freed e e' obj' field' → obj' = obj ∧ field' = field
  fewer : e'.liveCount < e.liveCount

/-- The fields of the object that a field holds. -/
def fieldsHeld (e : Engine) (obj : ObjectId) (field : String) : Set (ObjectId × String) :=
  {p | e.reported? obj field = some (.object p.1) ∧ p ∈ e.fieldsOf p.1}

theorem fieldsHeld_of_object (hholds : e.reported? obj field = some (.object inner)) :
    e.fieldsHeld obj field = e.fieldsOf inner := by
  ext p
  constructor
  · rintro ⟨hobject, hfield⟩
    obtain rfl : inner = p.1 := by simpa using hholds.symm.trans hobject
    exact hfield
  · rintro ⟨rfl, hfield⟩
    exact ⟨hholds, rfl, hfield⟩

/-- A field is released, and then the fields of the object that it holds. -/
theorem LetsGo.frees (h : LetsGo obj field e e') (hx : (e.variableOf? obj field).isSome)
    (hrest : Frees (e.fieldsHeld obj field) e' e'') :
    Frees {(obj, field)} e e'' where
  toLoosens := trans_of Loosens h.toLoosens hrest.toLoosens
  tidy := hrest.tidy
  start := by
    rintro p rfl
    exact hrest.plain h.start
  reached obj' field' hfreed := by
    rcases Frees.freed_cases hfreed with hfirst | hsecond
    · obtain ⟨rfl, rfl⟩ := h.only obj' field' hfirst
      exact .root rfl
    · refine ((hrest.reached obj' field' hsecond).of_loosens h.toLoosens).trans fun p hp ↦ ?_
      exact .held (.root rfl) hx hp.1 hp.2
  closed obj' field' inner name hfreed hholds := by
    rcases Frees.freed_cases hfreed with hfirst | hsecond
    · obtain ⟨rfl, rfl⟩ := h.only obj' field' hfirst
      -- what is no field of the object is not intercepted anyway
      by_cases hname : (inner, name) ∈ e.fieldsOf inner
      · exact hrest.start (inner, name) ⟨hholds, hname⟩
      · refine hrest.plain (h.plain ?_)
        by_contra hne
        exact hname (mem_fieldsOf_of_intercepted (Option.isSome_iff_ne_none.2 hne))
    · exact hrest.closed obj' field' inner name hsecond (by rw [h.reported, hholds])

/-- Variables that stay, with their parts and what may define them, read the same. -/
theorem sameReadings_of_subset (ht : e'.Tied) (size : e'.vars.cells.size = e.vars.cells.size)
    (vars : ∀ y w, e'.vars.get? y = some w → e.vars.get? y = some w)
    (solvers : e'.solvers = e.solvers) (enabled : e'.enabledFor = e.enabledFor)
    (current : e'.guards.current = e.guards.current) :
    SameReadings {y | ∃ w, e'.vars.get? y = some w} e e' where
  size := size
  gone y := by
    rintro ⟨w, hw⟩ hnone
    cases hnone.symm.trans (vars y w hw)
  vars y := by
    rintro ⟨w, hw⟩ v hv
    obtain rfl : w = v := Option.some.inj ((vars y w hw).symm.trans hv)
    have hweight : e'.weight? = e.weight? := by
      funext s
      rw [weight?, solvers, weight?]
    exact ⟨w, hw, soughtDefining_congr enabled current hweight rfl, rfl, fun _ ↦ rfl⟩
  parts y := by
    rintro ⟨w, hw⟩ v hv part hpart
    obtain rfl : w = v := Option.some.inj ((vars y w hw).symm.trans hv)
    obtain ⟨u, hu, -⟩ := ht.linked.part y w part.1 part.2 hw hpart
    exact ⟨u, hu⟩
  values s := by rw [solvers]

end Engine

namespace Call

/-- The engine after an intercepted field was made plain and its variable dropped. -/
def released (obj : ObjectId) (field : String) (x : VarId) (e : Engine) : Engine :=
  (Step.tick (Step.drop x
    ((Step.read x e).2.withSlot obj field (.plain (Step.read x e).1))).2).2

section Released

variable (he : e.Tidy) (hx : e.variableOf? obj field = some x)
include he hx

/-- The variable is dropped where its field has been made plain. -/
theorem drops_released : DropsAt (insert x ∅) x
      ((Step.read x e).2.withSlot obj field (.plain (Step.read x e).1))
      (Step.drop x ((Step.read x e).2.withSlot obj field (.plain (Step.read x e).1))).2 ∧
    (released obj field x e).Tied := by
  have hshape : SameShape e (Step.read x e).2 := Step.sameShape_read x
  have hx₁ : (Step.read x e).2.variableOf? obj field = some x := by rw [hshape.slots, hx]
  obtain ⟨hdrops, htied⟩ := drops_release (hshape.maintains he.tied) hx₁ (Step.read x e).1
  exact ⟨hdrops, SameShape.maintains Step.sameShape_tick htied⟩

theorem generation_released : (released obj field x e).guards.generation = e.guards.generation + 1 := by
  have hdrops := (drops_released he hx).1.1
  have hrecalls : Recalls e (Step.read x e).2 := Step.recalls_read x
  exact congrArg (·.generation + 1) (hdrops.guards.trans hrecalls.guards)

/-- What is remembered then was remembered before, or was found in the generation that has ended. -/
theorem abides_released {y : VarId} {w : Variable} {g : Nat} {d : Option Defining}
    (hw : (released obj field x e).vars.get? y = some w) (hmemo : w.definingMemo = some (g, d)) :
    e.guards.generation + e.liveCount < g + UInt64.size := by
  have hrecalls : Recalls e (Step.read x e).2 := Step.recalls_read x
  obtain rfl | ⟨v, hv, hbefore⟩ := hrecalls.recent ((drops_released he hx).1.1.vars y w hw) hmemo
  · exact Nat.add_lt_add_left he.abiding.room _
  · exact he.abiding.memos y v g d hv hbefore

theorem current_released : (released obj field x e).Current := by
  have hdrops := (drops_released he hx).1.1
  obtain ⟨v, hv, -⟩ := (he.tied.linked.slot obj field x).1 hx
  refine .of_past (e := (Step.read x e).2) ?_ (fun y w hw g d hmemo ↦ ?_) hdrops.vars
    (Step.read_of_current he.current x).2
  · exact Nat.lt_succ_of_le (Nat.le_of_eq (congrArg Guards.generation hdrops.guards.symm))
  · have hage := abides_released he hx hw hmemo
    have hlive := liveCount_pos hv
    rw [generation_released he hx]
    omega

/-- The field is plain, and the other fields are what they were. -/
theorem slot?_released (obj' : ObjectId) (field' : String) :
    (released obj field x e).slot? obj' field'
      = if obj' = obj ∧ field' = field then .ok (.plain (Step.read x e).1)
        else e.slot? obj' field' := by
  have hrecalls : Recalls e (Step.read x e).2 := Step.recalls_read x
  have hobjects : (released obj field x e).objects
      = ((Step.read x e).2.withSlot obj field (.plain (Step.read x e).1)).objects :=
    (drops_released he hx).1.1.objects
  obtain ⟨o, ho⟩ := exists_object hx
  rw [← hrecalls.objects] at ho
  rw [slot?, hobjects, ← slot?, slot?_withSlot ho, slot?, hrecalls.objects, ← slot?]

/-- A variable that stays reads as it did after the first read, and so as it did before. -/
theorem value_released {w : Variable} (hw : (released obj field x e).vars.get? y = some w) :
    (released obj field x e).value y = e.value y := by
  obtain ⟨⟨hdrops, -⟩, htied⟩ := drops_released he hx
  have hrecalls : Recalls e (Step.read x e).2 := Step.recalls_read x
  have hcurrent := congrArg Guards.current hdrops.guards
  have hreadings := sameReadings_of_subset (e := (Step.read x e).2) htied hdrops.size hdrops.vars
    hdrops.solvers hdrops.enabled hcurrent
  have hread : (Step.read x e).2.value y = e.value y :=
    congrFun (value_congr hrecalls.still hrecalls.weight?_eq) y
  exact (hreadings.value_eq ⟨w, hw⟩).trans hread

theorem reported?_released (obj' : ObjectId) (field' : String) :
    (released obj field x e).reported? obj' field' = e.reported? obj' field' := by
  have hslot := slot?_released he hx obj' field'
  by_cases hfield : obj' = obj ∧ field' = field
  · rw [if_pos hfield] at hslot
    rw [reported?_of_plain hslot, hfield.1, hfield.2, reported?_of_intercepted hx]
  · rw [if_neg hfield] at hslot
    refine reported?_eq_of_slot hslot he.current (current_released he hx) fun y hy ↦ ?_
    obtain ⟨w, hw, -⟩ := ((drops_released he hx).2.linked.slot obj' field' y).1 hy
    exact value_released he hx hw

theorem loosens_released : Loosens e (released obj field x e) := by
  have hdrops := (drops_released he hx).1.1
  have hrecalls : Recalls e (Step.read x e).2 := Step.recalls_read x
  refine ⟨hdrops.size.trans hrecalls.size, fun y hy ↦ ?_, fun obj' ↦ ?_, fun obj' field' ↦ ?_,
    reported?_released he hx⟩
  · refine hdrops.get?_eq_none (Option.map_eq_none_iff.1 ((hrecalls.vars y).trans ?_))
    rw [hy, Option.map_none]
  · have hobjects : (released obj field x e).objects
        = ((Step.read x e).2.withSlot obj field (.plain (Step.read x e).1)).objects := hdrops.objects
    rw [hobjects, withSlot, Arena.get?_modify, hrecalls.objects]
    split <;> simp
  · have hslot := slot?_released he hx obj' field'
    by_cases hfield : obj' = obj ∧ field' = field
    · exact .inr ⟨by simp [hfield.1, hfield.2, hx], _, by rw [hslot, if_pos hfield]⟩
    · exact .inl (by rw [hslot, if_neg hfield])

/-- **Releasing one field.** Its variable is gone, and what stays reads the same. -/
theorem letsGo_released : LetsGo obj field e (released obj field x e) := by
  obtain ⟨⟨-, hgone⟩, htied⟩ := drops_released he hx
  have hloosens := loosens_released he hx
  obtain ⟨v, hv, -⟩ := (he.tied.linked.slot obj field x).1 hx
  have hfewer := hloosens.liveCount_lt hv hgone
  have habiding : (released obj field x e).Abiding := by
    refine ⟨hfewer.trans he.abiding.room, fun y w g d hw hmemo ↦ ?_⟩
    have hage := abides_released he hx hw hmemo
    rw [generation_released he hx]
    omega
  refine ⟨hloosens, ⟨htied, current_released he hx, hloosens.named he.named, habiding⟩, ?_, ?_,
    hfewer⟩
  · simp [variableOf?, slot?_released he hx]
  · rintro obj' field' ⟨hbefore, hafter⟩
    by_contra hfield
    rw [variableOf?, slot?_released he hx, if_neg hfield, ← variableOf?] at hafter
    simp [hafter] at hbefore

end Released

/-! ### The walk -/

/-- A field is released if it is still intercepted. -/
theorem frees_visit {release : Call Unit} {name : String} (he : e.Tidy)
    (hrelease : Succeeds e release fun _ e' ↦ Frees {(inner, name)} e e') :
    Succeeds e (do
      if ((← get).variableOf? inner name).isSome then
        release
        pure (.yield PUnit.unit)
      else
        pure (.yield PUnit.unit))
      fun (step : ForInStep PUnit) e' ↦ step = .yield PUnit.unit ∧ Frees {(inner, name)} e e' := by
  refine Yields.get_bind ?_
  split
  · exact hrelease.bind fun _ e₁ h₁ ↦ .pure ⟨_, rfl, rfl, h₁⟩
  · next hplain =>
    refine .pure ⟨_, rfl, rfl, .nothing he ?_⟩
    rintro p rfl
    simpa using hplain

/-- Fields of an object are released in turn, those that are still intercepted. -/
theorem frees_forIn {f : String → Call Unit} {bound : Nat} {names : List String}
    (hf : ∀ e, e.Tidy → e.liveCount < bound → ∀ name, (inner, name) ∈ e.fieldsOf inner →
      Succeeds e (f name) fun _ e' ↦ Frees {(inner, name)} e e')
    (he : e.Tidy) (hbound : e.liveCount < bound)
    (hnames : ∀ name ∈ names, (inner, name) ∈ e.fieldsOf inner) :
    Succeeds e (forIn names PUnit.unit fun name _ ↦ do
      if ((← get).variableOf? inner name).isSome then
        f name
        pure (.yield PUnit.unit)
      else
        pure (.yield PUnit.unit))
      fun _ e' ↦ Frees {p | p.1 = inner ∧ p.2 ∈ names} e e' := by
  induction names generalizing e with
  | nil => exact .pure ⟨_, rfl, .nothing he fun p hp ↦ nomatch hp.2⟩
  | cons name rest ih =>
    have hsplit : ({(inner, name)} ∪ {p | p.1 = inner ∧ p.2 ∈ rest} : Set (ObjectId × String))
        = {p | p.1 = inner ∧ p.2 ∈ name :: rest} := by
      ext ⟨obj, field⟩
      simp only [Set.mem_union, Set.mem_singleton_iff, Prod.mk.injEq, Set.mem_ofPred_eq,
        List.mem_cons, ← and_or_left]
    rw [List.forIn_cons]
    have hfirst := frees_visit he (hf e he hbound name (hnames name List.mem_cons_self))
    refine hfirst.bind fun step e₁ h₁ ↦ ?_
    obtain ⟨rfl, h₁⟩ := h₁
    have hnames₁ : ∀ name' ∈ rest, (inner, name') ∈ e₁.fieldsOf inner := by
      intro name' hname'
      rw [h₁.fieldsOf_eq]
      exact hnames name' (List.mem_cons_of_mem _ hname')
    refine (ih h₁.tidy (Nat.lt_of_le_of_lt h₁.liveCount_le hbound) hnames₁).mono fun _ e' hrest ↦ ?_
    obtain ⟨u, hok, hrest⟩ := hrest
    exact ⟨u, hok, hsplit ▸ h₁.union hrest⟩

/-- The names of the fields of an object. -/
theorem fieldNames_eq {o : HostObject} (ho : e.objects.get? obj = some o) :
    fieldNames obj e = (.ok o.fields.keys, e) := by
  have hlookup := objectAt_eq obj e
  rw [ho] at hlookup
  exact bind_of_ok hlookup

theorem mem_fieldsOf {o : HostObject} (ho : e.objects.get? obj = some o) :
    (obj, name) ∈ e.fieldsOf obj ↔ name ∈ o.fields.keys := by
  rw [SortedMap.mem_keys_iff, Option.isSome_iff_exists]
  constructor
  · rintro ⟨-, slot, hslot⟩
    rw [slot?, ho] at hslot
    dsimp only at hslot
    split at hslot
    · cases hslot
    · next content hcontent => exact ⟨content, hcontent⟩
  · rintro ⟨slot, hslot⟩
    exact ⟨rfl, slot, by rw [slot?, ho]; dsimp only; rw [hslot]⟩

/-- The fields of an object are released. -/
theorem frees_fields {f : String → Call Unit} {bound : Nat}
    (hf : ∀ e, e.Tidy → e.liveCount < bound → ∀ name, (inner, name) ∈ e.fieldsOf inner →
      Succeeds e (f name) fun _ e' ↦ Frees {(inner, name)} e e')
    (he : e.Tidy) (hbound : e.liveCount < bound) (hinner : (e.objects.get? inner).isSome) :
    Succeeds e (do
      for name in ← fieldNames inner do
        if ((← get).variableOf? inner name).isSome then
          f name) fun _ e' ↦ Frees (e.fieldsOf inner) e e' := by
  obtain ⟨o, ho⟩ := Option.isSome_iff_exists.1 hinner
  have hfields : {p | p.1 = inner ∧ p.2 ∈ o.fields.keys} = e.fieldsOf inner := by
    ext ⟨obj, name⟩
    constructor
    · rintro ⟨rfl, hname⟩
      exact (mem_fieldsOf ho).2 hname
    · rintro ⟨rfl, hslot⟩
      exact ⟨rfl, (mem_fieldsOf ho).1 ⟨rfl, hslot⟩⟩
  refine .ok_bind (fieldNames_eq ho) ?_
  rw [← hfields]
  exact (frees_forIn hf he hbound fun name hname ↦ (mem_fieldsOf ho).2 hname).bind fun _ _ h ↦
    .pure ⟨_, rfl, h⟩

/-- **The walk** releases what is reached from a field, if it may go as many levels down as there are
live variables. -/
theorem frees_unconstrainWithin (n : Nat) (he : e.Tidy) (hn : e.liveCount < n)
    (hfield : (obj, field) ∈ e.fieldsOf obj) :
    Succeeds e (unconstrainWithin n obj field) fun _ e' ↦ Frees {(obj, field)} e e' := by
  induction n generalizing e obj field with
  | zero => exact absurd hn (Nat.not_lt_zero _)
  | succ n ih =>
    obtain ⟨-, slot, hslot⟩ := hfield
    have hlookup : slotAt obj field e = (.ok slot, e) := by rw [slotAt_eq, hslot]
    refine .ok_bind hlookup ?_
    cases slot with
    | plain v =>
      refine .pure ⟨_, rfl, .nothing he ?_⟩
      rintro p rfl
      rw [variableOf?, hslot]
    | intercepted x =>
      have hx : e.variableOf? obj field = some x := variableOf?_eq_some.2 hslot
      have hintercepted : (e.variableOf? obj field).isSome := by simp [hx]
      have hgo := letsGo_released he hx
      have hholds : e.reported? obj field = some (Step.read x e).1 := reported?_of_intercepted hx
      have hobjects : (Step.read x e).2.objects = e.objects :=
        Recalls.objects (Step.recalls_read x)
      obtain ⟨o, ho⟩ := exists_object hx
      refine Yields.lift_bind (.ok_bind (setSlot_eq (hobjects ▸ ho) _) (.lift_bind (.lift_bind ?_)))
      split
      · next inner hvalue =>
        rw [hvalue] at hholds
        have hinner : ((released obj field x e).objects.get? inner).isSome := by
          rw [hgo.objects]
          exact he.named obj field inner hholds
        have hfewer : (released obj field x e).liveCount < n := by
          have := hgo.fewer
          omega
        refine (frees_fields (fun e he hn name hname ↦ ih he hn hname) hgo.tidy hfewer hinner).mono ?_
        rintro _ e' ⟨u, hok, hrest⟩
        rw [hgo.fieldsOf_eq, ← fieldsHeld_of_object hholds] at hrest
        exact ⟨u, hok, hgo.frees hintercepted hrest⟩
      · next hother =>
        refine .pure ⟨_, rfl, hgo.frees hintercepted (.nothing hgo.tidy fun p hp ↦ ?_)⟩
        exact absurd (Option.some.inj (hholds.symm.trans hp.1)) (hother p.1)

theorem frees_unconstrain (he : e.Tidy) (hfield : (obj, field) ∈ e.fieldsOf obj) :
    Succeeds e (unconstrain obj field) fun _ e' ↦ Frees {(obj, field)} e e' :=
  .get_bind (frees_unconstrainWithin _ he (Nat.lt_succ_of_le e.liveCount_le) hfield)

theorem frees_unconstrainAll (he : e.Tidy) (hobj : (e.objects.get? obj).isSome) :
    Succeeds e (unconstrainAll obj) fun _ e' ↦ Frees (e.fieldsOf obj) e e' :=
  frees_fields (fun _ he _ _ hname ↦ frees_unconstrain he hname) he (Nat.lt_succ_self _) hobj

end Call

namespace Engine

/-- The fields that a request to unconstrain is about. The field or the object has to exist. -/
inductive Targets (e : Engine) : Request → Set (ObjectId × String) → Prop
  /-- One field. -/
  | field {obj : ObjectId} {field : String} (h : (obj, field) ∈ e.fieldsOf obj) :
    Targets e (.unconstrain obj field) {(obj, field)}
  /-- All fields of an object. -/
  | object {obj : ObjectId} (h : (e.objects.get? obj).isSome) :
    Targets e (.unconstrainAll obj) (e.fieldsOf obj)

theorem Targets.frees {request : Request} (h : Targets e request roots) (he : e.Tidy) (r : Reentry) :
    ∃ e', Call.perform r request e = (.ok .done, e') ∧ Frees roots e e' := by
  cases h with
  | @field obj field hfield =>
    obtain ⟨u, hok, hfrees⟩ := Call.frees_unconstrain he hfield (Call.returns_unconstrain obj field e)
    exact ⟨_, Call.bind_of_ok (Prod.ext hok rfl), hfrees⟩
  | @object obj hobj =>
    obtain ⟨u, hok, hfrees⟩ := Call.frees_unconstrainAll he hobj (Call.returns_unconstrainAll obj e)
    exact ⟨_, Call.bind_of_ok (Prod.ext hok rfl), hfrees⟩

/-- **Unconstraining releases just what is reached** and changes no value. In an engine that remembers
rightly what defines a variable, also for as long as the request takes, and whose fields hold existing
objects, the request succeeds; then
every field reports what it did, the fields that are intercepted no more are those that were and are
within reach of the fields that the request is about, and no field is intercepted that was not. -/
theorem Driven.unconstrain_frees {request : Request} (h : Driven config e) (hcurrent : e.Current)
    (habiding : e.Abiding) (hnamed : e.Named) (hrequest : Targets e request roots) (r : Reentry) :
    ∃ e', Call.perform r request e = (.ok .done, e') ∧
      (∀ obj field, e'.reported? obj field = e.reported? obj field) ∧
      (∀ obj field, Freed e e' obj field ↔
        (e.variableOf? obj field).isSome ∧ WithinReach e roots obj field) ∧
      ∀ obj field x, e'.variableOf? obj field = some x → e.variableOf? obj field = some x := by
  obtain ⟨e', hrun, hfrees⟩ := hrequest.frees ⟨h.tied, hcurrent, hnamed, habiding⟩ r
  exact ⟨e', hrun, hfrees.reported, fun _ _ ↦ hfrees.freed_iff, fun _ _ _ ↦ hfrees.intercepted⟩

/-- Two objects that hold each other, and one that neither of them holds. -/
def circle : List Request := [
  .addSolver (.relaxation 1000 1e-9) false,
  .createObject [("next", .object ⟨1⟩), ("load", .number 1)],
  .createObject [("next", .object ⟨0⟩), ("load", .number 2)],
  .createObject [("load", .number 3)],
  .always (.binary .le (.binary .add (.member (Expr.fieldOf 0 "next") "load")
    (.binary .add (.member (Expr.fieldOf 1 "next") "load") (Expr.fieldOf 2 "load")))
    (.const (.number 10))) {}]

/-- The walk goes once round the circle, and does not come to the third object. -/
theorem unconstrain_frees_circle : ∃ e',
    ((new {}).run circle).answer (.unconstrain ⟨0⟩ "next") = (.ok .done, e') ∧
    Freed ((new {}).run circle) e' ⟨0⟩ "load" ∧ Freed ((new {}).run circle) e' ⟨1⟩ "next" ∧
    e'.reported? ⟨0⟩ "load" = some (.number 1) ∧ ¬ Freed ((new {}).run circle) e' ⟨2⟩ "load" := by
  have hdriven : Driven {} ((new {}).run circle) := Driven.new.run (by decide +kernel)
  have hnext : (((new {}).run circle).variableOf? ⟨0⟩ "next").isSome := by decide +kernel
  have hback : (((new {}).run circle).variableOf? ⟨1⟩ "next").isSome := by decide +kernel
  have hload : (((new {}).run circle).variableOf? ⟨0⟩ "load").isSome := by decide +kernel
  obtain ⟨e', hrun, hreported, hfreed, -⟩ := hdriven.unconstrain_frees
    (by decide +kernel) (abiding_of_lt (by decide +kernel)) (by decide +kernel)
    (.field (mem_fieldsOf_of_intercepted hnext))
    (Reentry.ofDepth nestingLimit)
  have hreached : WithinReach ((new {}).run circle) {(⟨0⟩, "next")} ⟨1⟩ "next" :=
    .held (.root rfl) hnext (by decide +kernel) (mem_fieldsOf_of_intercepted hback)
  have hround : WithinReach ((new {}).run circle) {(⟨0⟩, "next")} ⟨0⟩ "load" :=
    .held hreached hback (by decide +kernel) (mem_fieldsOf_of_intercepted hload)
  have haside : (((new {}).run circle).answer (.unconstrain ⟨0⟩ "next")).2.variableOf? ⟨2⟩ "load"
      ≠ none := by decide +kernel
  refine ⟨e', hrun, (hfreed _ _).2 ⟨hload, hround⟩, (hfreed _ _).2 ⟨hback, hreached⟩, ?_, ?_⟩
  · rw [hreported]
    decide +kernel
  · rintro ⟨-, hplain⟩
    rw [show ((new {}).run circle).answer (.unconstrain ⟨0⟩ "next") = (.ok .done, e') from hrun] at haside
    exact haside hplain

end Engine

end LiveConstraints

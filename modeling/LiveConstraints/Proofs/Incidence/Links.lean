import LiveConstraints.Proofs.Reading
import Mathlib.Data.Set.Insert
/-!
# Links between the tables of an engine

Objects, variables and constraints refer to each other by identity, and each reference has one that
points back: a field to its variable and the variable's key to the field, a part to the variable it
belongs to and that variable's register to the part, a variable to its constraints and a constraint
to its variables. `Engine.Incident` says that the two directions agree. Nothing in it depends on
solvers.

Most operations leave the references alone (`Engine.SameShape`). Those that do not are in the middle
of something when only one direction has changed. `Engine.Linked` is what they keep, with two
parameters for such moments: the memberships that variables should list, whatever the constraints
say, and the variables that are doomed because what refers to them is gone already. Without doomed
variables and with the memberships of the constraints themselves it is `Engine.Tied`, which holds
between operations and says more than incidence: a part is younger than the variable it belongs to,
and constraints list live variables only.
-/

namespace LiveConstraints

variable {e e' e'' : Engine} {x y : VarId} {v w : Variable} {id : ConstraintId} {obj : ObjectId}
  {name : String}

/-- What the other tables know of a variable: what it intercepts, its parts and its constraints. -/
def Variable.shape (v : Variable) : VarKey × SortedMap String VarId × SortedSet ConstraintId :=
  (v.key, v.parts, v.constraints)

namespace Engine

/-- A constraint lists a variable. -/
def Spans (e : Engine) (x : VarId) (id : ConstraintId) : Prop :=
  ∃ c, e.constraints.get? id = some c ∧ x ∈ c.vars

/-- The references between objects and variables agree, up to doomed variables, and the variables
list the given memberships. -/
structure Linked (doomed : Set VarId) (member : VarId → ConstraintId → Prop) (e : Engine) :
    Prop where
  /-- A field is intercepted by the live variable that is keyed by it. -/
  slot : ∀ obj name x, e.variableOf? obj name = some x ↔
    ∃ v, e.vars.get? x = some v ∧ v.key = .field obj name ∧ x ∉ doomed
  /-- A part is younger than the variable it belongs to. -/
  younger : ∀ x v y name, e.vars.get? x = some v → v.key = .part y name → y < x
  /-- A part is registered in the variable it belongs to. -/
  registered : ∀ x v y name, e.vars.get? x = some v → v.key = .part y name → x ∉ doomed →
    ∃ w, e.vars.get? y = some w ∧ w.parts.find? name = some x
  /-- A registered part is live, and keyed by where it is registered. -/
  part : ∀ y w name x, e.vars.get? y = some w → (name, x) ∈ w.parts.entries →
    ∃ v, e.vars.get? x = some v ∧ v.key = .part y name ∧ x ∉ doomed
  /-- A live variable lists its memberships. -/
  lists : ∀ x v id, e.vars.get? x = some v → (id ∈ v.constraints.members ↔ member x id)
  /-- Members are live. -/
  live : ∀ x id, member x id → ∃ v, e.vars.get? x = some v

/-- **The references between the tables agree**, and no constraint lists a variable twice. -/
structure Incident (e : Engine) : Prop where
  /-- A field is intercepted by a variable exactly when that one is live and keyed by it. -/
  slot : ∀ obj name x, e.variableOf? obj name = some x ↔
    ∃ v, e.vars.get? x = some v ∧ v.key = .field obj name
  /-- A variable is live and keyed by a part exactly when its live parent has it registered under
  the name of the part. -/
  part : ∀ parent name x, (∃ v, e.vars.get? x = some v ∧ v.key = .part parent name) ↔
    ∃ w, e.vars.get? parent = some w ∧ w.parts.find? name = some x
  /-- A live variable lists a constraint exactly when that one is live and lists the variable. -/
  lists : ∀ x v id, e.vars.get? x = some v → (id ∈ v.constraints.members ↔ e.Spans x id)
  /-- A constraint lists a variable once. -/
  nodup : ∀ id c, e.constraints.get? id = some c → c.vars.Nodup

/-- Nothing is doomed, the variables list the constraints that list them, and no constraint lists a
variable twice. -/
structure Tied (e : Engine) : Prop where
  /-- Fields, variables and constraints refer to each other. -/
  linked : Linked ∅ e.Spans e
  /-- A constraint lists a variable once. -/
  nodup : ∀ id c, e.constraints.get? id = some c → c.vars.Nodup

theorem incident_of_tied (h : e.Tied) : e.Incident where
  slot obj name x := by
    rw [h.linked.slot]
    exact exists_congr fun v ↦ and_congr_right fun _ ↦ and_iff_left (Set.notMem_empty x)
  part parent name x := by
    constructor
    · rintro ⟨v, hv, hkey⟩
      exact h.linked.registered x v parent name hv hkey (Set.notMem_empty x)
    · rintro ⟨w, hw, hfind⟩
      obtain ⟨v, hv, hkey, -⟩ := h.linked.part parent w name x hw (SortedMap.mem_of_find? hfind)
      exact ⟨v, hv, hkey⟩
  lists := h.linked.lists
  nodup := h.nodup

/-- A computation keeps the tables tied. -/
def Maintains (e e' : Engine) : Prop := e.Tied → e'.Tied

instance : IsPreorder Engine Maintains where
  refl _ := fun h ↦ h
  trans _ _ _ h h' := fun he ↦ h' (h he)

theorem tied_new (config : Setup) : (new config).Tied where
  linked :=
    { slot := fun _ _ _ ↦ ⟨nofun, fun ⟨_, h, _⟩ ↦ by cases h⟩
      younger := fun _ _ _ _ h ↦ by cases h
      registered := fun _ _ _ _ h ↦ by cases h
      part := fun _ _ _ _ h ↦ by cases h
      lists := fun _ _ _ h ↦ by cases h
      live := fun _ _ ⟨_, h, _⟩ ↦ by cases h }
  nodup _ _ h := by cases h

/-! ### What leaves the references alone -/

/-- No reference between the tables differs. -/
structure SameShape (e e' : Engine) : Prop where
  slots : ∀ obj name, e'.variableOf? obj name = e.variableOf? obj name
  vars : ∀ x, (e'.vars.get? x).map Variable.shape = (e.vars.get? x).map Variable.shape
  spans : ∀ id, (e'.constraints.get? id).map Constraint.vars
    = (e.constraints.get? id).map Constraint.vars

instance : IsPreorder Engine SameShape where
  refl _ := ⟨fun _ _ ↦ rfl, fun _ ↦ rfl, fun _ ↦ rfl⟩
  trans _ _ _ h h' := ⟨fun obj name ↦ (h'.slots obj name).trans (h.slots obj name),
    fun x ↦ (h'.vars x).trans (h.vars x), fun id ↦ (h'.spans id).trans (h.spans id)⟩

namespace SameShape

variable (h : SameShape e e')
include h

theorem exists_before (hw : e'.vars.get? x = some w) :
    ∃ v, e.vars.get? x = some v ∧ w.shape = v.shape := by
  have hx := h.vars x
  rw [hw, Option.map_some] at hx
  obtain ⟨v, hv, heq⟩ := Option.map_eq_some_iff.1 hx.symm
  exact ⟨v, hv, heq.symm⟩

theorem exists_after (hv : e.vars.get? x = some v) :
    ∃ w, e'.vars.get? x = some w ∧ w.shape = v.shape := by
  have hx := h.vars x
  rw [hv, Option.map_some] at hx
  exact Option.map_eq_some_iff.1 hx

theorem constraint_before {c' : Constraint} (hc : e'.constraints.get? id = some c') :
    ∃ c, e.constraints.get? id = some c ∧ c'.vars = c.vars := by
  have hid := h.spans id
  rw [hc, Option.map_some] at hid
  obtain ⟨c, hc, heq⟩ := Option.map_eq_some_iff.1 hid.symm
  exact ⟨c, hc, heq.symm⟩

theorem constraint_after {c : Constraint} (hc : e.constraints.get? id = some c) :
    ∃ c', e'.constraints.get? id = some c' ∧ c'.vars = c.vars := by
  have hid := h.spans id
  rw [hc, Option.map_some] at hid
  exact Option.map_eq_some_iff.1 hid

theorem spans_iff : e'.Spans x id ↔ e.Spans x id := by
  constructor
  · rintro ⟨c', hc', hx⟩
    obtain ⟨c, hc, heq⟩ := h.constraint_before hc'
    exact ⟨c, hc, heq ▸ hx⟩
  · rintro ⟨c, hc, hx⟩
    obtain ⟨c', hc', heq⟩ := h.constraint_after hc
    exact ⟨c', hc', heq ▸ hx⟩

end SameShape

variable {doomed : Set VarId} {member member' : VarId → ConstraintId → Prop}

theorem Linked.sameShape (hl : Linked doomed member e) (h : SameShape e e') :
    Linked doomed member e' where
  slot obj name x := by
    rw [h.slots, hl.slot]
    constructor
    · rintro ⟨v, hv, hkey, hx⟩
      obtain ⟨w, hw, heq⟩ := h.exists_after hv
      exact ⟨w, hw, (congrArg Prod.fst heq).trans hkey, hx⟩
    · rintro ⟨w, hw, hkey, hx⟩
      obtain ⟨v, hv, heq⟩ := h.exists_before hw
      exact ⟨v, hv, (congrArg Prod.fst heq).symm.trans hkey, hx⟩
  younger x w y name hw hkey := by
    obtain ⟨v, hv, heq⟩ := h.exists_before hw
    exact hl.younger x v y name hv ((congrArg Prod.fst heq).symm.trans hkey)
  registered x w y name hw hkey hx := by
    obtain ⟨v, hv, heq⟩ := h.exists_before hw
    obtain ⟨u, hu, hfind⟩ := hl.registered x v y name hv ((congrArg Prod.fst heq).symm.trans hkey) hx
    obtain ⟨u', hu', heq'⟩ := h.exists_after hu
    have hparts : u'.parts = u.parts := congrArg (·.2.1) heq'
    exact ⟨u', hu', by rw [hparts, hfind]⟩
  part y u' name x hu' hmem := by
    obtain ⟨u, hu, heq'⟩ := h.exists_before hu'
    have hparts : u'.parts = u.parts := congrArg (·.2.1) heq'
    obtain ⟨v, hv, hkey, hx⟩ := hl.part y u name x hu (hparts ▸ hmem)
    obtain ⟨w, hw, heq⟩ := h.exists_after hv
    exact ⟨w, hw, (congrArg Prod.fst heq).trans hkey, hx⟩
  lists x w id hw := by
    obtain ⟨v, hv, heq⟩ := h.exists_before hw
    have hconstraints : w.constraints = v.constraints := congrArg (·.2.2) heq
    rw [hconstraints]
    exact hl.lists x v id hv
  live x id hx := by
    obtain ⟨v, hv⟩ := hl.live x id hx
    obtain ⟨w, hw, -⟩ := h.exists_after hv
    exact ⟨w, hw⟩

/-- Which memberships are listed is a matter of the memberships alone. -/
theorem Linked.congr (hl : Linked doomed member e) (h : ∀ x id, member' x id ↔ member x id) :
    Linked doomed member' e :=
  { hl with
    lists := fun x v id hv ↦ (hl.lists x v id hv).trans (h x id).symm
    live := fun x id hx ↦ hl.live x id ((h x id).1 hx) }

/-- The references between objects and variables do not depend on the constraints. -/
theorem Linked.of_tables (hl : Linked doomed member e) (objects : e'.objects = e.objects)
    (vars : e'.vars = e.vars) : Linked doomed member e' := by
  have hslot : ∀ obj name, e'.variableOf? obj name = e.variableOf? obj name := by
    intro obj name
    rw [variableOf?, slot?, objects, variableOf?, slot?]
  refine ⟨fun obj name x ↦ ?_, ?_, ?_, ?_, ?_, ?_⟩
  · rw [hslot, vars]
    exact hl.slot obj name x
  all_goals rw [vars]
  · exact hl.younger
  · exact hl.registered
  · exact hl.part
  · exact hl.lists
  · exact hl.live

theorem SameShape.maintains (h : SameShape e e') : Maintains e e' := by
  intro hI
  refine ⟨(hI.linked.sameShape h).congr fun _ _ ↦ h.spans_iff, fun id c' hc' ↦ ?_⟩
  obtain ⟨c, hc, heq⟩ := h.constraint_before hc'
  rw [heq]
  exact hI.nodup id c hc

/-- The solvers and what calls in progress keep track of are no matter. -/
theorem sameShape_aside (objects : e'.objects = e.objects) (vars : e'.vars = e.vars)
    (constraints : e'.constraints = e.constraints) : SameShape e e' := by
  refine ⟨fun obj name ↦ ?_, fun x ↦ by rw [vars], fun id ↦ by rw [constraints]⟩
  rw [variableOf?, slot?, objects, variableOf?, slot?]

/-- One variable changes in what the other tables do not know. -/
theorem sameShape_variable {f : Variable → Variable} (shape : ∀ v, (f v).shape = v.shape) :
    SameShape e { e with vars := e.vars.modify x f } := by
  exact ⟨fun _ _ ↦ rfl, Arena.map_get?_modify fun v _ ↦ shape v, fun _ ↦ rfl⟩

/-- One constraint changes, but not the variables it lists. -/
theorem sameShape_constraint {f : Constraint → Constraint} (vars : ∀ c, (f c).vars = c.vars) :
    SameShape e { e with constraints := e.constraints.modify id f } := by
  exact ⟨fun _ _ ↦ rfl, fun _ ↦ rfl, Arena.map_get?_modify fun c _ ↦ vars c⟩

theorem Recalls.sameShape (h : Recalls e e') : SameShape e e' := by
  refine ⟨fun obj name ↦ ?_, fun x ↦ ?_, fun id ↦ by rw [h.constraints]⟩
  · rw [variableOf?, slot?, h.objects, variableOf?, slot?]
  · have hx := congrArg (Option.map Variable.shape) (h.vars x)
    rwa [Option.map_map, Option.map_map] at hx

end Engine

end LiveConstraints

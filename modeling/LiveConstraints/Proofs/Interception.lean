import LiveConstraints.Engine.Interception
import LiveConstraints.Proofs.Reading
/-!
# Intercepting fields keeps the invariant

While a predicate is evaluated, variables come into being, take part in the constraint that is being
built and are bound to its solver. `Engine.Gathers` says what stays meanwhile: the constraints but
for the variables they touch, the bindings, and who takes part in the constraint. So a handle that
is attached to the constraint stays attached, and the clause that the predicate is compiled to may
mention it.
-/

namespace LiveConstraints

/-- A constraint without the variables it touches. -/
def Constraint.withoutVars (c : Constraint) : Constraint := { c with vars := [] }

namespace Engine

variable {e e' e'' : Engine} {id : ConstraintId} {s : SolverId} {x : VarId} {h : ExtVar}

/-- A variable and a constraint know of each other. -/
def TakesPart (e : Engine) (x : VarId) (id : ConstraintId) : Prop :=
  e.Lists x id ∧ ∃ c, e.constraints.get? id = some c ∧ x ∈ c.vars

/-- A handle represents a variable that takes part in a constraint. -/
def Attached (e : Engine) (id : ConstraintId) (s : SolverId) (h : ExtVar) : Prop :=
  ∃ x, e.Bound x s h ∧ e.TakesPart x id

/-- What stays while a predicate is evaluated for a constraint. -/
structure Gathers (id : ConstraintId) (e e' : Engine) : Prop where
  modifies : Modifies e e'
  constraints : ∀ id', (e'.constraints.get? id').map Constraint.withoutVars
    = (e.constraints.get? id').map Constraint.withoutVars
  bound : ∀ x s h, e.Bound x s h → e'.Bound x s h
  takes : ∀ x, e.TakesPart x id → e'.TakesPart x id

instance : IsPreorder Engine (Gathers id) where
  refl e := ⟨.refl e, fun _ ↦ rfl, fun _ _ _ h ↦ h, fun _ h ↦ h⟩
  trans _ _ _ h h' := ⟨h.modifies.trans h'.modifies,
    fun id' ↦ (h'.constraints id').trans (h.constraints id'),
    fun x s k hk ↦ h'.bound x s k (h.bound x s k hk), fun x hx ↦ h'.takes x (h.takes x hx)⟩

namespace Gathers

variable (hg : Gathers id e e')
include hg

theorem sound (hs : e.Sound) : e'.Sound := hg.modifies.sound hs

theorem attached (hh : e.Attached id s h) : e'.Attached id s h := by
  obtain ⟨x, hb, hx⟩ := hh
  exact ⟨x, hg.bound x s h hb, hg.takes x hx⟩

/-- A constraint that is there after was there before, but for its variables. -/
theorem exists_before {id' : ConstraintId} {c' : Constraint}
    (hc' : e'.constraints.get? id' = some c') :
    ∃ c, e.constraints.get? id' = some c ∧ c'.withoutVars = c.withoutVars := by
  have hid := hg.constraints id'
  rw [hc', Option.map_some] at hid
  obtain ⟨c, hc, heq⟩ := Option.map_eq_some_iff.1 hid.symm
  exact ⟨c, hc, heq.symm⟩

end Gathers

/-- The constraints stay. -/
theorem Modifies.gathers (h : Modifies e e') (constraints : e'.constraints = e.constraints)
    (bound : ∀ x s h, e.Bound x s h → e'.Bound x s h)
    (lists : ∀ x, e.Lists x id → e'.Lists x id) : Gathers id e e' := by
  refine ⟨h, fun id' ↦ by rw [constraints], bound, fun x hx ↦ ⟨lists x hx.1, ?_⟩⟩
  rw [constraints]
  exact hx.2

theorem Recalls.gathers (h : Recalls e e') : Gathers id e e' :=
  h.modifies.gathers h.constraints (fun _ _ _ ↦ h.bound.2) fun _ ↦ h.lists.2

/-- One variable changes, and keeps its bindings and memberships. -/
theorem gathers_modify {f : Variable → Variable}
    (h : Modifies e { e with vars := e.vars.modify x f })
    (bindings : ∀ v, e.vars.get? x = some v → ∀ s h, v.handle? s = some h →
      (f v).handle? s = some h)
    (members : ∀ v, id ∈ v.constraints.members → id ∈ (f v).constraints.members) :
    Gathers id e { e with vars := e.vars.modify x f } := by
  refine h.gathers rfl ?_ ?_
  · rintro y s k ⟨v, hv, hk⟩
    refine ⟨_, get?_modify_of_get? hv, ?_⟩
    split
    · next hy => exact bindings v (hy ▸ hv) s k hk
    · exact hk
  · rintro y ⟨v, hv, hid⟩
    refine ⟨_, get?_modify_of_get? hv, ?_⟩
    split
    · exact members v hid
    · exact hid

theorem modifies_objects {objects : Arena .object HostObject}
    (hooks : ∀ obj o, objects.get? obj = some o → ∃ o', e.objects.get? obj = some o' ∧
      o.hooks = o'.hooks) : Modifies e { e with objects } := by
  refine modifies_of_move (.objects objects fun h ↦
    ⟨h.evaluator, ?_, h.options, h.deferred, h.pending⟩) rfl rfl rfl
  intro obj o field hook ho hhook
  obtain ⟨o', ho', heq⟩ := hooks obj o ho
  exact h.hooks obj o' field hook ho' (heq ▸ hhook)

/-- A field gets another slot. -/
theorem modifies_insertField (obj : ObjectId) (field : String) (slot : FieldSlot) :
    Modifies e { e with
      objects := e.objects.modify obj fun o ↦ { o with fields := o.fields.insert field slot } } := by
  refine modifies_objects fun obj' o ho ↦ ?_
  rw [Arena.get?_modify] at ho
  split at ho
  · obtain ⟨o', ho', rfl⟩ := Option.map_eq_some_iff.1 ho
    exact ⟨o', ho', rfl⟩
  · exact ⟨o, ho, rfl⟩

end Engine

open Engine

variable {e e' : Engine} {id : ConstraintId} {s : SolverId} {x : VarId}

namespace Step

/-- A variable changes apart from its links. -/
theorem gathers_modifyVariable {f : Variable → Variable} (links : ∀ v, SameLinks v (f v)) :
    Within (Gathers id) e (modifyVariable x f) := by
  refine gathers_modify (within_modifyVariable links) (fun v _ s h hh ↦ ?_) fun v hid ↦ ?_
  · rwa [Variable.handle?, (links v).bindings]
  · rwa [(links v).constraints]

theorem gathers_tick : Within (Gathers id) e tick :=
  within_tick.gathers rfl (fun _ _ _ h ↦ h) fun _ h ↦ h

end Step

namespace Call

/-! ### Variables of fields and parts -/

theorem gathers_allocate (v : Variable) (unbound : v.bindings = ∅) :
    Within (Gathers id) e (allocate v) := by
  have hinsert : Modifies e { e with vars := e.vars.insert v } :=
    modifies_of_move (.allocate v unbound) rfl rfl rfl
  refine .get_bind (.modify_bind (hinsert.gathers rfl ?_ ?_) ?_)
  · rintro y s h ⟨w, hw, hh⟩
    exact ⟨w, Arena.get?_insert_of_get? hw, hh⟩
  · rintro y ⟨w, hw, hid⟩
    exact ⟨w, Arena.get?_insert_of_get? hw, hid⟩
  · exact .lift_bind Step.gathers_tick fun _ _ _ _ ↦ .pure _

theorem modifies_setSlot (obj : ObjectId) (field : String) (slot : FieldSlot) :
    Within Modifies e (setSlot obj field slot) :=
  .objectAt_bind fun _ _ _ ↦ modifies_insertField obj field slot

theorem gathers_setSlot (obj : ObjectId) (field : String) (slot : FieldSlot) :
    Within (Gathers id) e (setSlot obj field slot) :=
  .objectAt_bind fun _ _ _ ↦
    (modifies_insertField obj field slot).gathers rfl (fun _ _ _ h ↦ h) fun _ h ↦ h

theorem gathers_fieldVariable (obj : ObjectId) (name : String) (parent : Option VarId) :
    Within (Gathers id) e (fieldVariable obj name parent) := by
  refine .slotAt_bind fun slot _ ↦ ?_
  cases slot with
  | intercepted x =>
    refine .lift_bind (Step.gathers_modifyVariable fun v ↦ ?_) fun _ _ _ _ ↦ .pure _
    split <;> exact ⟨rfl, rfl, rfl⟩
  | plain shadow =>
    refine (gathers_allocate _ rfl).bind fun x e₁ _ _ ↦ ?_
    exact (gathers_setSlot _ _ _).bind fun _ _ _ _ ↦ .pure _

theorem gathers_partVariable (parent : VarId) (name : String) :
    Within (Gathers id) e (partVariable parent name) := by
  refine .variableAt_bind fun v _ ↦ ?_
  split
  · exact .pure _
  · refine .lift_bind (Step.recalls_read parent).gathers fun w e₁ _ _ ↦ ?_
    split
    · exact .fail _
    · refine (gathers_allocate _ rfl).bind fun x e₂ _ _ ↦ ?_
      refine .lift_bind (Step.gathers_modifyVariable fun v ↦ ⟨rfl, rfl, rfl⟩) fun _ _ _ _ ↦ ?_
      exact .pure _

/-! ### Binding -/

/-- A solver that is asked to represent a value gets a variable that did not exist, or refuses. -/
theorem declare_held (hs : e.Sound) {solver : Solver} (hsolver : e.solvers.get? s = some solver)
    (v : Value) (label : String) {h : ExtVar} (hh : (solver.declare v label).1 = some h) :
    e.held? s h = none ∧ (solver.declare v label).2.held? h = some v ∧
      (solver.declare v label).2.clause? = solver.clause? := by
  rcases Solver.declare_spec (hs.trusted s solver hsolver).reference v label
    with ⟨hnone, -⟩ | ⟨x, hx, hd⟩
  · rw [hnone] at hh
    cases hh
  · obtain rfl : x = h := Option.some.inj (hx.symm.trans hh)
    refine ⟨?_, ?_, hd.clause?⟩
    · rw [held?_eq hsolver]
      exact hd.fresh
    · rw [hd.held?, if_pos rfl]

theorem modifies_declare (hs : e.Sound) {solver : Solver}
    (hsolver : e.solvers.get? s = some solver) (v : Value) (label : String) :
    Modifies e { e with solvers := e.solvers.modify s fun _ ↦ (solver.declare v label).2 } := by
  rcases Solver.declare_spec (hs.trusted s solver hsolver).reference v label
    with ⟨-, hd⟩ | ⟨x, -, hd⟩
  · exact Step.modifies_adopt hsolver (.inl hd)
  · refine modifies_of_move (.declare s _ fun solver' hsolver' ↦ ⟨x, v, ?_⟩) rfl rfl rfl
    obtain rfl : solver' = solver := Option.some.inj (hsolver'.symm.trans hsolver)
    exact hd

/-- A variable that a solver was not asked about is not bound to it, reading notwithstanding. -/
theorem not_bound_of_new {v : Variable} (hv : e.vars.get? x = some v)
    (hnew : (!v.bindings.contains s) = true) (hrecalls : Recalls e e') (h : ExtVar) :
    ¬ e'.Bound x s h := by
  intro hb
  obtain ⟨w, hw, hh⟩ := hrecalls.bound.1 hb
  obtain rfl : w = v := Option.some.inj (hw.symm.trans hv)
  rw [SortedMap.contains, Bool.not_eq_true', Option.isSome_eq_false_iff,
    Option.isNone_iff_eq_none] at hnew
  rw [Variable.handle?, hnew] at hh
  cases hh

/-- Asking a solver to represent a variable. -/
theorem gathers_bind (hs : e.Sound) (x : VarId) (s : SolverId) :
    Within (Gathers id) e (bind x s) := by
  refine .variableAt_bind fun v hv ↦ ?_
  split
  swap
  · exact .pure _
  next hnew =>
  refine .lift_bind_of (Step.recalls_read x) (fun _ ↦ Recalls.gathers) fun value e₁ _ hrecalls ↦ ?_
  have hs₁ := hrecalls.modifies.sound hs
  have hunbound : ∀ h, ¬ e₁.Bound x s h := not_bound_of_new hv hnew hrecalls
  dsimp only
  refine .get_bind (.callSolver_bind (fun solver hsolver ↦ ?_) fun solver hsolver ↦ ?_)
  · exact (modifies_declare hs₁ hsolver value _).gathers rfl (fun _ _ _ h ↦ h) fun _ h ↦ h
  -- nothing relies on a handle that was just handed out
  have hget : (e₁.solvers.modify s fun _ ↦ (solver.declare value (e₁.fieldLabel x)).2).get? s
      = some (solver.declare value (e₁.fieldLabel x)).2 := by
    rw [Arena.get?_modify, if_pos rfl, hsolver, Option.map_some]
  refine .lift_bind (gathers_modify (modifies_of_move (.link x s _ hunbound ?_ ?_ ?_) rfl rfl rfl)
    ?_ fun _ hid ↦ hid) fun _ _ _ _ ↦ .lift Step.gathers_tick
  · intro h hh
    rw [held?]
    dsimp only
    rw [hget, Option.bind_some, (declare_held hs₁ hsolver value _ hh).2.1]
    rfl
  · intro h hh y hb
    have hheld := hs₁.bound y s h hb
    rw [(declare_held hs₁ hsolver value _ hh).1] at hheld
    cases hheld
  · rintro h hh ⟨id', c, p, d, on, hc, rfl, hp, hclause, hd⟩
    obtain ⟨hnone, -, hsame⟩ := declare_held hs₁ hsolver value _ hh
    rw [clause?] at hclause
    dsimp only at hclause
    rw [hget, Option.bind_some, hsame, ← clause?_eq hsolver] at hclause
    have hheld := (hs₁.covered id' c hc p hp d on hclause).held h hd
    rw [hnone] at hheld
    cases hheld
  · intro w hw t k hk
    rw [Variable.handle?, SortedMap.find?_insert, if_neg]
    · exact hk
    · rintro rfl
      exact hunbound k ⟨w, hw, hk⟩

/-! ### Taking part -/

theorem gathers_join (x : VarId) (id : ConstraintId) :
    Gathers id e { e with vars := e.vars.modify x fun v ↦
      { v with constraints := v.constraints.add id } } := by
  refine gathers_modify (modifies_of_move (.join x id) rfl rfl rfl) (fun v _ s h hh ↦ hh) ?_
  exact fun v hid ↦ SortedSet.mem_members_add.2 (.inr hid)

theorem gathers_extend (id : ConstraintId) (x : VarId) :
    Gathers id e { e with
      constraints := e.constraints.modify id fun c ↦
        if c.vars.contains x then c else { c with vars := c.vars ++ [x] } } := by
  refine ⟨modifies_of_move (.extend id x) rfl rfl rfl, Arena.map_get?_modify fun c _ ↦ ?_,
    fun _ _ _ h ↦ h, ?_⟩
  · split <;> rfl
  · rintro y ⟨hlists, c, hc, hy⟩
    refine ⟨hlists, _, get?_modify_constraint hc, ?_⟩
    rw [if_pos rfl]
    split
    · exact hy
    · exact List.mem_append_left _ hy

theorem gathers_attach (hs : e.Sound) (id : ConstraintId) (s : SolverId) (x : VarId) :
    Within (Gathers id) e (attach id s x) := by
  refine .lift_bind (gathers_join x id) fun _ e₁ _ h₁ ↦ ?_
  refine Within.bind ?_ fun _ e₂ _ h₂ ↦ gathers_bind (h₂.sound (h₁.sound hs)) x s
  exact .constraintAt_bind fun c _ ↦ .lift (gathers_extend id x)

/-- Attaching binds a variable that takes part in the constraint. -/
theorem of_attach_ok (h : attach id s x e = (.ok (), e')) :
    ∃ e₁, Gathers id e e₁ ∧ e₁.TakesPart x id ∧ bind x s e₁ = (.ok (), e') := by
  obtain ⟨_, e₁, h₁, hrest⟩ := of_bind_ok h
  cases h₁
  obtain ⟨_, e₂, h₂, hbind⟩ := of_bind_ok hrest
  obtain ⟨c, e₃, hlookup, hextend⟩ := of_bind_ok h₂
  obtain ⟨hc, rfl⟩ := of_lookup_ok (constraintAt_eq id _) hlookup
  cases hextend
  refine ⟨_, trans_of (Gathers id) (gathers_join x id) (gathers_extend id x), ⟨?_, ?_⟩, hbind⟩
  · -- the variable exists, for otherwise it could not be bound
    obtain ⟨v, e₄, hlookup, -⟩ := of_bind_ok hbind
    obtain ⟨hv, -⟩ := of_lookup_ok (variableAt_eq x _) hlookup
    obtain ⟨w, hw, ⟨-, rfl⟩ | ⟨hne, -⟩⟩ := exists_of_modify hv
    · exact ⟨_, hv, SortedSet.mem_members_add.2 (.inl rfl)⟩
    · exact absurd rfl hne
  · refine ⟨_, get?_modify_constraint hc, ?_⟩
    rw [if_pos rfl]
    split
    · next hx => exact List.contains_iff_mem.1 hx
    · exact List.mem_append_right _ List.mem_cons_self

/-- Once attached, a variable takes part in the constraint. -/
theorem takesPart_of_attach (hs : e.Sound) (h : attach id s x e = (.ok (), e')) :
    e'.TakesPart x id := by
  obtain ⟨e₁, hgathers, htakes, hbind⟩ := of_attach_ok h
  exact ((gathers_bind (hgathers.sound hs) x s).of_ok hbind).takes x htakes

theorem gathers_touchField (hs : e.Sound) (id : ConstraintId) (s : SolverId) (obj : ObjectId)
    (name : String) (parent : Option VarId) :
    Within (Gathers id) e (touchField id s obj name parent) := by
  refine (gathers_fieldVariable obj name parent).bind fun x e₁ _ h₁ ↦ ?_
  exact (gathers_attach (h₁.sound hs) id s x).bind fun _ _ _ _ ↦ .pure _

theorem takesPart_of_touchField (hs : e.Sound) {obj : ObjectId} {name : String}
    {parent : Option VarId} (h : touchField id s obj name parent e = (.ok x, e')) :
    e'.TakesPart x id := by
  obtain ⟨y, e₁, h₁, h⟩ := of_bind_ok h
  obtain ⟨_, e₂, h₂, h⟩ := of_bind_ok h
  cases h
  have hg : Gathers id e e₁ := (gathers_fieldVariable obj name parent).of_ok h₁
  exact takesPart_of_attach (hg.sound hs) h₂

theorem gathers_touchPart (hs : e.Sound) (id : ConstraintId) (s : SolverId) (parent : VarId)
    (name : String) : Within (Gathers id) e (touchPart id s parent name) := by
  refine (gathers_partVariable parent name).bind fun x e₁ _ h₁ ↦ ?_
  exact (gathers_attach (h₁.sound hs) id s x).bind fun _ _ _ _ ↦ .pure _

theorem takesPart_of_touchPart (hs : e.Sound) {parent : VarId} {name : String}
    (h : touchPart id s parent name e = (.ok x, e')) : e'.TakesPart x id := by
  obtain ⟨y, e₁, h₁, h⟩ := of_bind_ok h
  obtain ⟨_, e₂, h₂, h⟩ := of_bind_ok h
  cases h
  have hg : Gathers id e e₁ := (gathers_partVariable parent name).of_ok h₁
  exact takesPart_of_attach (hg.sound hs) h₂

/-! ### Read-only flags -/

/-- A change of the read-only flag of a handle. -/
theorem modifies_pin (hs : e.Sound) (s : SolverId) (h : ExtVar) (on : Bool) :
    Within Modifies e (changeSolver s fun solver ↦ solver.setReadonly h on) := by
  refine .of_callSolver fun solver hsolver ↦ Step.modifies_adopt hsolver (.inl ?_)
  exact Solver.alike_setReadonly (hs.trusted s solver hsolver).reference h on

theorem modifies_setReadonly (hs : e.Sound) (obj : ObjectId) (field : String) (on : Bool) :
    Within Modifies e (setReadonly obj field on) := by
  refine .get_bind ?_
  split
  · exact .fail _
  · refine .variableAt_bind fun v _ ↦ .bind (.forIn fun b _ _ e' he ↦ ?_) fun _ _ _ _ ↦ .pure _
    exact (modifies_pin (he.sound hs) b.1 b.2 on).bind fun _ _ _ _ ↦ .pure _

end Call

end LiveConstraints

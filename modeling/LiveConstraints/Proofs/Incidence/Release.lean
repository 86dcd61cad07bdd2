import LiveConstraints.Proofs.Incidence.Changes
import LiveConstraints.Proofs.Incidence.Shape
/-!
# Letting go keeps the tables tied

A variable is released when no constraint lists it and no part of it is left, so what remains to be
undone is the one reference that points to it: the slot of its field, or the register of the variable
it is a part of. Leaving constraints, abandoning one and dropping a variable each undo two directions
one after the other. In between, the variables list memberships that no constraint has any more, or
a field is plain although its variable is still there.
-/

namespace LiveConstraints

open Engine

variable {e e' e'' : Engine} {x y : VarId} {v : Variable} {id : ConstraintId} {obj : ObjectId}
  {name : String} {doomed : Set VarId} {member member' : VarId → ConstraintId → Prop}

/-! ### Releasing variables -/

namespace Engine

/-- Variables that are no longer listed may have gone. -/
structure Releases (e e' : Engine) : Prop where
  linked : ∀ member, Linked ∅ member e → Linked ∅ member e'
  constraints : e'.constraints = e.constraints

instance : IsPreorder Engine Releases where
  refl _ := ⟨fun _ hl ↦ hl, rfl⟩
  trans _ _ _ h h' := ⟨fun member hl ↦ h'.linked member (h.linked member hl),
    h'.constraints.trans h.constraints⟩

theorem SameShape.releases (h : SameShape e e') (constraints : e'.constraints = e.constraints) :
    Releases e e' := ⟨fun _ hl ↦ hl.sameShape h, constraints⟩

theorem Recalls.releases (h : Recalls e e') : Releases e e' := h.sameShape.releases h.constraints

theorem spans_congr (h : e'.constraints = e.constraints) : e'.Spans x id ↔ e.Spans x id := by
  rw [Spans, h, Spans]

theorem Releases.maintains (h : Releases e e') : Maintains e e' := by
  intro ht
  refine ⟨(h.linked _ ht.linked).congr fun _ _ ↦ spans_congr h.constraints, ?_⟩
  rw [h.constraints]
  exact ht.nodup

/-- A doomed variable that nothing lists and that has no parts can go. -/
theorem Linked.release (hl : Linked (insert x ∅) member e) (hv : e.vars.get? x = some v)
    (constraints : v.constraints.isEmpty = true) (parts : v.parts.isEmpty = true) :
    Linked ∅ member { e with vars := e.vars.remove x } := by
  have hremoved := hl.remove (x := x) fun _ _ ↦ Set.mem_insert x ∅
  refine (hremoved.congr_doomed fun y w hw ↦ ?_).congr fun y id ↦ ?_
  · obtain ⟨hne, hw⟩ := Arena.of_get?_remove hw
    refine iff_of_false (Set.notMem_empty y) ?_
    -- a part of the variable would be registered in it
    rintro ((rfl | hy) | ⟨u, name, hu, hkey⟩)
    · exact hne rfl
    · exact hy
    · have hy : y ∉ insert x (∅ : Set VarId) := by
        rintro (rfl | hy)
        · exact hne rfl
        · exact hy
      obtain ⟨v', hv', hfind⟩ := hl.registered y u x name hu hkey hy
      obtain rfl : v' = v := Option.some.inj (hv'.symm.trans hv)
      have hmem := SortedMap.mem_of_find? hfind
      rw [List.isEmpty_iff.1 parts] at hmem
      cases hmem
  · refine ⟨fun h ↦ ⟨?_, h⟩, And.right⟩
    rintro rfl
    have hmem := (hl.lists y v id hv).2 h
    rw [SortedSet.members, SortedMap.keys, List.isEmpty_iff.1 constraints] at hmem
    cases hmem

end Engine

namespace Step

theorem restoreField_run (x : VarId) (obj : ObjectId) (name : String) (value : Value) (e : Engine) :
    (restoreField x obj name value e).2
      = if e.variableOf? obj name == some x then e.withSlot obj name (.plain value) else e := by
  show ((if e.variableOf? obj name == some x then _ else _ : Step Unit) _).2 = _
  split <;> rfl

/-- The field of a variable becomes plain when the variable goes. -/
theorem releases_field (hv : e.vars.get? x = some v) (hkey : v.key = .field obj name)
    (constraints : v.constraints.isEmpty = true) (parts : v.parts.isEmpty = true) (value : Value) :
    Releases e (restoreField x obj name value { e with vars := e.vars.remove x }).2 := by
  rw [restoreField_run]
  refine ⟨fun member hl ↦ ?_, by split <;> rfl⟩
  have hslot : e.variableOf? obj name = some x :=
    (hl.slot obj name x).2 ⟨v, hv, hkey, Set.notMem_empty x⟩
  have hslot' : variableOf? { e with vars := e.vars.remove x } obj name = some x := hslot
  rw [if_pos (beq_iff_eq.2 hslot')]
  exact (hl.doom hslot value).release hv constraints parts

/-- The variable that a part belongs to forgets it when it goes. -/
theorem releases_part (hv : e.vars.get? x = some v) (hkey : v.key = .part y name)
    (constraints : v.constraints.isEmpty = true) (parts : v.parts.isEmpty = true) :
    Releases e { e with vars := (e.vars.remove x).modify y fun p ↦
      { p with parts := p.parts.erase name } } := by
  refine ⟨fun member hl ↦ ?_, rfl⟩
  have hlt : y < x := hl.younger x v y name hv hkey
  have hne : x ≠ y := by
    rintro rfl
    exact Nat.lt_irrefl _ hlt
  have hv' : (e.vars.modify y fun p ↦ { p with parts := p.parts.erase name }).get? x = some v := by
    rw [Arena.get?_modify, if_neg hne, hv]
  have hreleased := (hl.disown hv hkey (Set.notMem_empty x)).release hv' constraints parts
  -- the two changes are of different variables
  refine hreleased.sameShape ⟨fun _ _ ↦ rfl, fun z ↦ ?_, fun _ ↦ rfl⟩
  dsimp only
  simp only [Arena.get?_modify, Arena.get?_remove]
  split <;> split <;> rfl

theorem releases_modifyAll {α : Type} (l : List α) (s : α → SolverId) (f : α → Solver → Solver) :
    Within Releases e (forIn l PUnit.unit fun a _ ↦ do
      modifySolver (s a) (f a)
      pure (.yield PUnit.unit)) := by
  refine .forIn fun a _ _ e₁ _ ↦ Within.bind ?_ fun _ _ _ _ ↦ .pure _
  exact SameShape.releases (sameShape_modifySolver _ _) rfl

theorem releases_releaseWithin (n : Nat) (x : VarId) : Within Releases e (releaseWithin n x) := by
  induction n generalizing e x with
  | zero => exact .pure _
  | succ n ih =>
    unfold releaseWithin
    refine .get_bind ?_
    split
    · exact .pure _
    · next v hv =>
      split
      · next hunused =>
        rw [Bool.and_eq_true, Bool.and_eq_true] at hunused
        refine ((recalls_read x).mono fun _ ↦ Recalls.releases).bind fun value e₁ hrun h₁ ↦ ?_
        -- reading leaves the variable unused
        have hrecalls : Recalls e e₁ := by
          have h := recalls_read (e := e) x
          rwa [Within, hrun] at h
        obtain ⟨w, hw, heq⟩ := hrecalls.exists_after hv
        have hkey : w.key = v.key := congrArg (·.key) heq
        have hconstraints : w.constraints.isEmpty = true :=
          (congrArg (fun v ↦ v.constraints.isEmpty) heq).trans hunused.1.1
        have hparts : w.parts.isEmpty = true :=
          (congrArg (fun v ↦ v.parts.isEmpty) heq).trans hunused.2
        have htick : ∀ e₂, Within Releases e₂ tick := fun e₂ ↦
          SameShape.releases sameShape_tick rfl
        cases hcase : v.key with
        | field obj name =>
          have hfield := releases_field hw (hkey.trans hcase) hconstraints hparts value
          exact trans_of Releases hfield (htick _)
        | part parent name =>
          have hpart := releases_part hw (hkey.trans hcase) hconstraints hparts
          exact trans_of Releases hpart (trans_of Releases (ih parent) (htick _))
      · exact .pure _

theorem releases_detachUnused (x : VarId) : Within Releases e (detachUnused x) := by
  unfold detachUnused
  refine .get_bind ?_
  split
  · exact .pure _
  · refine Within.bind (.forIn fun b _ _ e₁ _ ↦ ?_) fun _ e₁ _ _ ↦
      .get_bind (releases_releaseWithin _ x)
    refine Within.bind (SameShape.releases (sameShape_variable ?_) rfl) fun _ e₂ _ _ ↦ ?_
    · exact fun _ ↦ rfl
    · split
      · refine Within.bind ?_ fun _ _ _ _ ↦ .pure _
        exact SameShape.releases (sameShape_modifySolver _ _) rfl
      · exact .pure _

end Step

/-! ### Leaving constraints -/

namespace Engine

/-- The memberships without those of some variables in a constraint. -/
def leaving (member : VarId → ConstraintId → Prop) (xs : Set VarId) (id : ConstraintId) :
    VarId → ConstraintId → Prop :=
  fun y i ↦ member y i ∧ ¬ (y ∈ xs ∧ i = id)

/-- Some variables left a constraint, and variables that are no longer listed may have gone. -/
structure Leaves (id : ConstraintId) (xs : Set VarId) (e e' : Engine) : Prop where
  linked : ∀ member, Linked ∅ member e → Linked ∅ (leaving member xs id) e'
  constraints : e'.constraints = e.constraints

variable {xs ys : Set VarId}

theorem leaves_refl (h : xs = ∅) : Leaves id xs e e := by
  subst h
  refine ⟨fun member hl ↦ hl.congr fun y i ↦ ?_, rfl⟩
  exact ⟨And.left, fun hmember ↦ ⟨hmember, fun h ↦ Set.notMem_empty y h.1⟩⟩

theorem Leaves.trans (h : Leaves id xs e e') (h' : Leaves id ys e' e'') :
    Leaves id (xs ∪ ys) e e'' := by
  refine ⟨fun member hl ↦ (h'.linked _ (h.linked member hl)).congr fun y i ↦ ?_,
    h'.constraints.trans h.constraints⟩
  simp only [leaving, Set.mem_union]
  tauto

theorem Releases.leaves (h : Releases e e') (h' : Leaves id xs e' e'') : Leaves id xs e e'' :=
  ⟨fun member hl ↦ h'.linked member (h.linked member hl), h'.constraints.trans h.constraints⟩

theorem Leaves.releases (h : Leaves id xs e e') (h' : Releases e' e'') : Leaves id xs e e'' :=
  ⟨fun member hl ↦ h'.linked _ (h.linked member hl), h'.constraints.trans h.constraints⟩

/-- When all its variables have left a constraint that is gone, the tables are tied. -/
theorem Tied.of_leaves {c : Constraint} (ht : e.Tied) (hc : e.constraints.get? id = some c)
    (h : Leaves id {y | y ∈ c.vars} { e with constraints := e.constraints.remove id } e') :
    e'.Tied := by
  have hget : ∀ i c', e'.constraints.get? i = some c' ↔
      i ≠ id ∧ e.constraints.get? i = some c' := by
    intro i c'
    rw [h.constraints, Arena.get?_remove]
    split
    · next hi => exact ⟨nofun, fun h ↦ absurd hi h.1⟩
    · next hi => exact ⟨fun h ↦ ⟨hi, h⟩, And.right⟩
  have hlinked : Linked ∅ e.Spans { e with constraints := e.constraints.remove id } :=
    ht.linked.of_tables rfl rfl
  refine ⟨(h.linked _ hlinked).congr fun y i ↦ ?_, fun i c' hc' ↦ ?_⟩
  · constructor
    · rintro ⟨c', hc', hy⟩
      obtain ⟨hi, hc'⟩ := (hget i c').1 hc'
      exact ⟨⟨c', hc', hy⟩, fun h ↦ hi h.2⟩
    · rintro ⟨⟨c', hc', hy⟩, hleft⟩
      refine ⟨c', (hget i c').2 ⟨?_, hc'⟩, hy⟩
      rintro rfl
      obtain rfl : c' = c := Option.some.inj (hc'.symm.trans hc)
      exact hleft ⟨hy, rfl⟩
  · exact ht.nodup i c' ((hget i c').1 hc').2

end Engine

namespace Step

theorem leaves_leave (x : VarId) (id : ConstraintId) : Within (Leaves id {x}) e (leave x id) := by
  refine ⟨fun member hl ↦ hl.relist (fun _ ↦ rfl) (fun _ ↦ rfl) ?_ ?_ ?_, rfl⟩
  · intro v i hv
    rw [SortedSet.mem_members_erase, hl.lists x v i hv]
    exact and_congr_right fun _ ↦ ⟨fun hne h ↦ hne h.2, fun h heq ↦ h ⟨rfl, heq⟩⟩
  · intro y i hy
    exact and_iff_left fun h ↦ hy h.1
  · rintro i ⟨hmember, -⟩
    exact hl.live x i hmember

/-- A loop in which each round lets some variables leave. -/
theorem leaves_forIn (id : ConstraintId) {f : VarId → PUnit → Step (ForInStep PUnit)}
    (left : VarId → Set VarId)
    (h : ∀ x e, (f x ⟨⟩ e).1 = .yield ⟨⟩ ∧ Leaves id (left x) e (f x ⟨⟩ e).2) (l : List VarId) :
    Within (Leaves id {y | ∃ x ∈ l, y ∈ left x}) e (forIn l PUnit.unit f) := by
  induction l generalizing e with
  | nil => exact leaves_refl (by simp)
  | cons x l ih =>
    rw [List.forIn_cons]
    have hunion : {y | ∃ x' ∈ x :: l, y ∈ left x'} = left x ∪ {y | ∃ x' ∈ l, y ∈ left x'} := by
      ext y
      simp
    rw [hunion]
    obtain ⟨hyield, hleft⟩ := h x e
    show Leaves id _ e ((f x ⟨⟩ >>= _) e).2
    rw [bind_run, hyield]
    exact hleft.trans ih

/-- The variables of a list leave one after another. -/
theorem leaves_leaveAll (xs : List VarId) (id : ConstraintId) :
    Within (Leaves id {y | y ∈ xs}) e (forIn xs PUnit.unit fun x _ ↦ do
      leave x id
      pure (.yield PUnit.unit)) := by
  have hloop := leaves_forIn (e := e) id (f := fun x _ ↦ do
    leave x id
    pure (.yield PUnit.unit)) (fun x ↦ {x}) (fun x e₁ ↦ ⟨rfl, leaves_leave x id⟩) xs
  simpa using hloop

/-- **Abandoning a constraint** keeps the tables tied. -/
theorem maintains_abandon (id : ConstraintId) : Within Maintains e (abandon id) := by
  refine ((sameShape_disable id).mono fun _ ↦ SameShape.maintains).bind fun _ e₁ _ _ ↦ ?_
  refine .get_bind ?_
  split
  · exact .pure _
  · next c hc =>
    -- every variable leaves and then goes if nothing is left of it
    have hvars : ∀ e₂, Within (Leaves id {y | y ∈ c.vars}) e₂ (forIn c.vars PUnit.unit fun x _ ↦ do
        leave x id
        detachUnused x
        pure (.yield PUnit.unit)) := by
      intro e₂
      have hloop := leaves_forIn (e := e₂) id (f := fun x _ ↦ do
        leave x id
        detachUnused x
        pure (.yield PUnit.unit)) (fun x ↦ {x})
        (fun x e₃ ↦ ⟨rfl, (leaves_leave x id).releases (releases_detachUnused x)⟩) c.vars
      simpa using hloop
    have hgone : Within (Leaves id {y | y ∈ c.vars})
        { e₁ with constraints := e₁.constraints.remove id } (do
          for p in c.primitives do
            modifySolver c.solver fun s => s.removePrimitive p
          for x in c.vars do
            leave x id
            detachUnused x
          tick) := by
      refine (releases_modifyAll _ _ _).seq (fun _ e₂ _ ↦ ?_)
        fun _ _ h (h' : Leaves _ _ _ _) ↦ h.leaves h'
      exact (hvars e₂).seq (fun _ e₃ _ ↦ SameShape.releases sameShape_tick rfl)
        fun _ _ h (h' : Releases _ _) ↦ h.releases h'
    exact fun ht ↦ ht.of_leaves hc hgone

end Step

end LiveConstraints

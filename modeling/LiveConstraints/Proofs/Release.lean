import LiveConstraints.Proofs.Interception
import LiveConstraints.Proofs.Switching
/-!
# Releasing keeps the invariant

Bindings are dropped only when no constraint of the variable uses their solver, and then no clause
mentions the handle: a clause that did would belong to a constraint that its variables take part in.
Abandoning a constraint drops it while it is off, so its clauses are nobody's and can go.
-/

namespace LiveConstraints

open Engine

variable {e e' e'' : Engine} {id : ConstraintId} {s : SolverId} {x : VarId} {h : ExtVar}

/-! ### Detaching variables -/

namespace Engine

/-- Variables, bindings and fields are let go of; the constraints stay. -/
structure Detaches (e e' : Engine) : Prop where
  modifies : Modifies e e'
  constraints : e'.constraints = e.constraints

instance : IsPreorder Engine Detaches where
  refl e := ⟨.refl e, rfl⟩
  trans _ _ _ h h' := ⟨h.modifies.trans h'.modifies, h'.constraints.trans h.constraints⟩

theorem Detaches.sound (h : Detaches e e') (hs : e.Sound) : e'.Sound := h.modifies.sound hs

theorem Recalls.detaches (h : Recalls e e') : Detaches e e' := ⟨h.modifies, h.constraints⟩

/-- A constraint is gone, and the others stay. -/
structure Abandons (id : ConstraintId) (e e' : Engine) : Prop where
  modifies : Modifies e e'
  constraints : ∀ id', e'.constraints.get? id' = if id' = id then none else e.constraints.get? id'

theorem Abandons.detaches (h : Abandons id e e') (h' : Detaches e' e'') : Abandons id e e'' :=
  ⟨h.modifies.trans h'.modifies, fun id' ↦ by rw [h'.constraints, h.constraints]⟩

theorem Disables.abandons (h : Disables id e e') (h' : Abandons id e' e'') : Abandons id e e'' := by
  refine ⟨h.modifies.trans h'.modifies, fun id' ↦ ?_⟩
  rw [h'.constraints, h.constraints]
  split <;> rfl

end Engine

namespace Step

theorem detaches_modifyVariable {f : Variable → Variable} (links : ∀ v, SameLinks v (f v)) :
    Within Detaches e (modifyVariable x f) := ⟨within_modifyVariable links, rfl⟩

theorem detaches_tick : Within Detaches e tick := ⟨within_tick, rfl⟩

theorem detaches_restoreField (x : VarId) (obj : ObjectId) (name : String) (v : Value) :
    Within Detaches e (restoreField x obj name v) := by
  refine .get_bind ?_
  split
  · exact ⟨modifies_insertField obj name (.plain v), rfl⟩
  · exact .pure _

theorem detaches_release (x : VarId) : Detaches e { e with vars := e.vars.remove x } :=
  ⟨modifies_of_move (.release x) rfl rfl rfl, rfl⟩

theorem detaches_releaseWithin (n : Nat) (x : VarId) : Within Detaches e (releaseWithin n x) := by
  induction n generalizing e x with
  | zero => exact .pure _
  | succ n ih =>
    unfold releaseWithin
    refine .get_bind ?_
    split
    · exact .pure _
    · next v _ =>
      split
      · refine ((recalls_read x).mono fun _ ↦ Recalls.detaches).bind fun value e₁ _ _ ↦ ?_
        refine Within.bind (detaches_release x) fun _ e₂ _ _ ↦ ?_
        cases v.key with
        | field obj name =>
          exact (detaches_restoreField x obj name value).bind fun _ _ _ _ ↦ detaches_tick
        | part parent name =>
          refine Within.bind (detaches_modifyVariable fun v ↦ ⟨rfl, rfl, rfl⟩) fun _ _ _ _ ↦ ?_
          exact (ih parent).bind fun _ _ _ _ ↦ detaches_tick
      · exact .pure _

theorem detaches_releaseIfUnused (x : VarId) : Within Detaches e (releaseIfUnused x) :=
  .get_bind (detaches_releaseWithin _ x)

/-- Bindings of a variable that no constraint of it uses. -/
structure Unused (e : Engine) (x : VarId) (bs : List (SolverId × Option ExtVar)) : Prop where
  nodup : (bs.map Prod.fst).Nodup
  unused : ∀ b ∈ bs, ∃ v, e.vars.get? x = some v ∧ v.bindings.find? b.1 = some b.2 ∧
    ∀ h, b.2 = some h → ∀ id ∈ v.constraints.members, ∀ c, e.constraints.get? id = some c →
      c.solver ≠ b.1

theorem Unused.erase {b : SolverId × Option ExtVar} {bs : List (SolverId × Option ExtVar)}
    (h : Unused e x (b :: bs)) (vars : e'.vars = e.vars.modify x fun v ↦
      { v with bindings := v.bindings.erase b.1 }) (constraints : e'.constraints = e.constraints) :
    Unused e' x bs := by
  obtain ⟨hhead, htail⟩ := List.nodup_cons.1 h.nodup
  refine ⟨htail, fun b' hb' ↦ ?_⟩
  obtain ⟨v, hv, hfind, hunused⟩ := h.unused b' (List.mem_cons_of_mem _ hb')
  have hne : b'.1 ≠ b.1 := fun heq ↦ hhead (heq ▸ List.mem_map_of_mem hb')
  refine ⟨{ v with bindings := v.bindings.erase b.1 }, ?_, ?_, ?_⟩
  · rw [vars, get?_modify_of_get? hv, if_pos rfl]
  · rw [SortedMap.find?_erase, if_neg hne, hfind]
  · rw [constraints]
    exact hunused

/-- A handle that is no longer bound, and that no constraint of its variable used. -/
theorem detaches_removeVariable (hs : e.Sound) {v : Variable} (hv : e.vars.get? x = some v)
    (hh : v.bindings.find? s = some (some h))
    (unused : ∀ id ∈ v.constraints.members, ∀ c, e.constraints.get? id = some c → c.solver ≠ s) :
    Detaches e { e with
      vars := e.vars.modify x fun v ↦ { v with bindings := v.bindings.erase s }
      solvers := e.solvers.modify s fun solver ↦ solver.removeVariable h } := by
  have hbound : e.Bound x s h := ⟨v, hv, by rw [Variable.handle?, hh]; rfl⟩
  have hunlink : Modifies e { e with vars := e.vars.modify x fun v ↦
      { v with bindings := v.bindings.erase s } } :=
    modifies_of_move (.unlink x s) rfl rfl rfl
  refine ⟨hunlink.trans (modifies_of_move (.undeclare s h _ ?_ ?_ ?_) rfl rfl rfl), rfl⟩
  · exact fun solver hsolver ↦
      Solver.forgets_removeVariable (hs.trusted s solver hsolver).reference h
  · rintro y ⟨w, hw, hk⟩
    obtain ⟨u, hu, ⟨-, rfl⟩ | ⟨hne, rfl⟩⟩ := exists_of_modify hw
    · rw [Variable.handle?, SortedMap.find?_erase, if_pos rfl] at hk
      cases hk
    · exact hne (hs.injective y x s h ⟨w, hu, hk⟩ hbound)
  · rintro ⟨id, c, p, d, on, hc, hsolver, hp, hclause, hd⟩
    subst hsolver
    obtain ⟨⟨w, hw, hid⟩, -⟩ := (hs.covered id c hc p hp d on hclause).listed h x hd hbound
    obtain rfl : w = v := Option.some.inj (hw.symm.trans hv)
    exact unused id hid c hc rfl

theorem detaches_dropBindings {bs : List (SolverId × Option ExtVar)} (hs : e.Sound)
    (hb : Unused e x bs) : Within Detaches e (forIn bs PUnit.unit fun b _ ↦ do
      modifyVariable x fun v => { v with bindings := v.bindings.erase b.1 }
      match b.2 with
      | some h => modifySolver b.1 fun solver => solver.removeVariable h
      | none => pure ()
      pure (.yield PUnit.unit)) := by
  induction bs generalizing e with
  | nil => exact .pure _
  | cons b bs ih =>
    rw [List.forIn_cons]
    obtain ⟨s, handle⟩ := b
    obtain ⟨v, hv, hfind, hunused⟩ := hb.unused _ List.mem_cons_self
    cases handle with
    | none =>
      have hunlink : Detaches e { e with vars := e.vars.modify x fun v ↦
          { v with bindings := v.bindings.erase s } } :=
        ⟨modifies_of_move (.unlink x s) rfl rfl rfl, rfl⟩
      exact trans_of Detaches hunlink (ih (hunlink.sound hs) (hb.erase rfl rfl))
    | some h =>
      have hremove := detaches_removeVariable hs hv hfind (hunused h rfl)
      exact trans_of Detaches hremove (ih (hremove.sound hs) (hb.erase rfl rfl))

theorem detaches_detachUnused (hs : e.Sound) (x : VarId) :
    Within Detaches e (detachUnused x) := by
  unfold detachUnused
  refine .get_bind ?_
  split
  · exact .pure _
  · next v hv =>
    refine (detaches_dropBindings hs ⟨?_, fun b hb ↦ ?_⟩).bind fun _ _ _ _ ↦
      detaches_releaseIfUnused x
    · exact ((hs.ordered x v hv).nodup_keys).sublist (List.filter_sublist.map _)
    · obtain ⟨hmem, hcond⟩ := List.mem_filter.1 hb
      refine ⟨v, hv, (hs.ordered x v hv).find?_of_mem hmem, fun h hh id hid c hc hsolver ↦ ?_⟩
      rw [hh] at hcond
      simp only [Option.isNone_some, Bool.false_or, Bool.not_eq_true',
        ← Bool.not_eq_true, List.contains_iff_mem] at hcond
      refine hcond (List.mem_filterMap.2 ⟨id, hid, ?_⟩)
      rw [hc, Option.map_some, hsolver]

/-! ### Abandoning a constraint -/

/-- A variable leaves a constraint that is gone. -/
theorem detaches_leave (x : VarId) (gone : e.constraints.get? id = none) :
    Within Detaches e (leave x id) := by
  refine ⟨modifies_of_move (.leave x id fun c hc ↦ ?_) rfl rfl rfl, rfl⟩
  rw [gone] at hc
  cases hc

theorem detaches_leaveAll {xs : List VarId} (hs : e.Sound)
    (gone : e.constraints.get? id = none) : Within Detaches e (forIn xs PUnit.unit fun x _ ↦ do
      leave x id
      detachUnused x
      pure (.yield PUnit.unit)) := by
  refine .forIn fun x _ _ e₁ h₁ ↦ ?_
  have hgone : e₁.constraints.get? id = none := by rw [h₁.constraints, gone]
  refine (detaches_leave x hgone).bind fun _ e₂ _ h₂ ↦ ?_
  exact (detaches_detachUnused (h₂.sound (h₁.sound hs)) x).bind fun _ _ _ _ ↦ .pure _

/-- A clause that belongs to no constraint is removed. -/
theorem detaches_removePrimitive {p : Primitive} (hs : e.Sound) (unowned : ¬ e.Owned s p) :
    Within Detaches e (modifySolver s fun solver => solver.removePrimitive p) := by
  refine ⟨modifies_of_move (.erase s p _ (fun solver hsolver ↦ ?_) unowned) rfl rfl rfl, rfl⟩
  exact Solver.erases_removePrimitive (hs.trusted s solver hsolver).reference p

theorem detaches_removePrimitives {ps : List Primitive} (hs : e.Sound)
    (unowned : ∀ p ∈ ps, ¬ e.Owned s p) :
    Within Detaches e (forIn ps PUnit.unit fun p _ ↦ do
      modifySolver s fun solver => solver.removePrimitive p
      pure (.yield PUnit.unit)) := by
  refine .forIn fun p hp _ e₁ h₁ ↦ Within.bind ?_ fun _ _ _ _ ↦ .pure _
  refine detaches_removePrimitive (h₁.sound hs) ?_
  rw [Owned, h₁.constraints]
  exact unowned p hp

/-- Abandoning a constraint takes it away and leaves the others. -/
theorem abandon_spec (hs : e.Sound) (id : ConstraintId) : Within (Abandons id) e (abandon id) := by
  refine (disable_spec hs id).seq (fun _ e₁ h₁ ↦ ?_) (fun _ _ h (h' : Abandons id _ _) ↦ h.abandons h')
  have hs₁ := h₁.modifies.sound hs
  refine .get_bind ?_
  split
  · next hnone =>
    refine ⟨.refl e₁, fun id' ↦ ?_⟩
    show e₁.constraints.get? id' = if id' = id then none else e₁.constraints.get? id'
    split
    · next h => rw [h, hnone]
    · rfl
  · next c hc =>
    have hoff : ∀ c', e₁.constraints.get? id = some c' → c'.enabled = false := by
      intro c' hc'
      rw [h₁.constraints, if_pos rfl] at hc'
      obtain ⟨c₀, -, rfl⟩ := Option.map_eq_some_iff.1 hc'
      rfl
    have hremove : Abandons id e₁ { e₁ with constraints := e₁.constraints.remove id } :=
      ⟨modifies_of_move (.retire id hoff) rfl rfl rfl, fun id' ↦ Arena.get?_remove ..⟩
    refine Within.seq hremove (fun _ e₂ (h₂ : Abandons id _ _) ↦ ?_)
      fun _ _ h (h' : Detaches _ _) ↦ h.detaches h'
    have hs₂ := h₂.modifies.sound hs₁
    have hgone : e₂.constraints.get? id = none := by rw [h₂.constraints, if_pos rfl]
    -- the clauses belonged to the constraint alone
    refine (detaches_removePrimitives hs₂ fun p hp ↦ ?_).bind fun _ e₃ _ h₃ ↦ ?_
    · rintro ⟨id', c', hc', hsolver, hp'⟩
      rw [h₂.constraints] at hc'
      split at hc'
      · cases hc'
      · next hne => exact absurd (hs₁.unique id' c' id c hc' hc hsolver p hp' hp) hne
    · refine (detaches_leaveAll (h₃.sound hs₂) ?_).bind fun _ _ _ _ ↦ detaches_tick
      rw [h₃.constraints, hgone]

end Step

/-- The clauses that belong to no constraint are removed in a call. -/
theorem Call.detaches_removePrimitives {ps : List Primitive} (hs : e.Sound)
    (unowned : ∀ p ∈ ps, ¬ e.Owned s p) :
    Within Detaches e (forIn ps PUnit.unit fun p _ ↦ do
      Step.modifySolver s fun solver => solver.removePrimitive p
      pure (.yield PUnit.unit)) :=
  .forIn_of_step (Step.detaches_removePrimitives hs unowned) fun _ _ _ ↦ rfl

namespace Step

/-! ### Taking a variable away -/

/-- The constraints of a variable that is gone forget it. -/
theorem modifies_forgetAll {ids : List ConstraintId} (gone : e.vars.get? x = none) :
    Within Modifies e (forIn ids PUnit.unit fun id _ ↦ do
      modifyConstraint id fun c => { c with vars := c.vars.filter (· != x) }
      pure (.yield PUnit.unit)) := by
  induction ids generalizing e with
  | nil => exact .pure _
  | cons id ids ih =>
    rw [List.forIn_cons]
    refine Within.bind (modifies_of_move (.forget x id gone) rfl rfl rfl) fun step e₁ hrun _ ↦ ?_
    cases hrun
    exact ih gone

theorem modifies_dropWithin (n : Nat) (x : VarId) : Within Modifies e (dropWithin n x) := by
  induction n generalizing e x with
  | zero => exact .pure _
  | succ n ih =>
    unfold dropWithin
    refine .get_bind ?_
    split
    · exact .pure _
    · next v _ =>
      have hrelease : Modifies e { e with vars := e.vars.remove x } :=
        modifies_of_move (.release x) rfl rfl rfl
      refine Within.bind hrelease fun _ e₁ hrun _ ↦ ?_
      cases hrun
      refine (modifies_forgetAll ?_).bind fun _ e₂ _ _ ↦ ?_
      · dsimp only
        rw [Arena.get?_remove, if_pos rfl]
      refine (Within.forIn fun part _ _ e₃ _ ↦ (ih part).bind fun _ _ _ _ ↦ .pure _).bind
        fun _ e₃ _ _ ↦ ?_
      cases v.key with
      | part parent name => exact within_modifyVariable fun v ↦ ⟨rfl, rfl, rfl⟩
      | field obj name => exact .pure _

theorem modifies_drop (x : VarId) : Within Modifies e (drop x) :=
  .get_bind (modifies_dropWithin _ x)

end Step

namespace Call

theorem within_fieldNames {R : Engine → Engine → Prop} [IsPreorder Engine R] (obj : ObjectId) :
    Within R e (fieldNames obj) := .objectAt_bind fun _ _ ↦ .pure _

theorem modifies_unconstrainWithin (n : Nat) (obj : ObjectId) (field : String) :
    Within Modifies e (unconstrainWithin n obj field) := by
  induction n generalizing e obj field with
  | zero => exact .pure _
  | succ n ih =>
    refine .slotAt_bind fun slot _ ↦ ?_
    cases slot with
    | plain v => exact .pure _
    | intercepted x =>
      refine .lift_bind ((Step.recalls_read x).mono fun _ ↦ Recalls.modifies) fun v e₁ _ _ ↦ ?_
      refine (modifies_setSlot _ _ _).bind fun _ e₂ _ _ ↦ ?_
      refine .lift_bind (Step.modifies_drop x) fun _ e₃ _ _ ↦ ?_
      refine .lift_bind Step.within_tick fun _ e₄ _ _ ↦ ?_
      cases v with
      | object inner =>
        refine (within_fieldNames inner).bind fun names e₅ _ _ ↦ ?_
        refine Within.bind (.forIn fun name _ _ e₆ _ ↦ .get_bind ?_) fun _ _ _ _ ↦ .pure _
        split
        · exact (ih inner name).bind fun _ _ _ _ ↦ .pure _
        · exact .pure _
      | _ => exact .pure _

theorem modifies_unconstrain (obj : ObjectId) (field : String) :
    Within Modifies e (unconstrain obj field) := .get_bind (modifies_unconstrainWithin _ obj field)

theorem modifies_unconstrainAll (obj : ObjectId) : Within Modifies e (unconstrainAll obj) := by
  refine (within_fieldNames obj).bind fun names e₁ _ _ ↦ ?_
  refine Within.bind (.forIn fun name _ _ e₂ _ ↦ .get_bind ?_) fun _ _ _ _ ↦ .pure _
  split
  · exact (modifies_unconstrain obj name).bind fun _ _ _ _ ↦ .pure _
  · exact .pure _

end Call

end LiveConstraints

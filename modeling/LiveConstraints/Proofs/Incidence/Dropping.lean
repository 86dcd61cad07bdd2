import LiveConstraints.Proofs.Incidence.Release
/-!
# Dropping a variable with its parts

Unconstraining a field makes it plain and drops its variable, whatever still uses it: the variable
goes, the constraints that it lists forget it, and its parts are dropped in turn. A part is younger
than the variable it belongs to, so as many levels are followed as variables were ever there, which
is all of them.
-/

namespace LiveConstraints

open Engine

variable {e e' e'' : Engine} {x y : VarId} {v : Variable} {id : ConstraintId} {obj : ObjectId}
  {name : String} {doomed doomed' : Set VarId}

namespace Engine

/-- Doomed variables were dropped, and the constraints that listed them have forgotten them. -/
structure Drops (doomed : Set VarId) (e e' : Engine) : Prop where
  linked : Linked doomed e.Spans e → Linked doomed e'.Spans e'
  nodup : (∀ id c, e.constraints.get? id = some c → c.vars.Nodup) →
    ∀ id c, e'.constraints.get? id = some c → c.vars.Nodup
  size : e'.vars.cells.size = e.vars.cells.size
  vars : ∀ y w, e'.vars.get? y = some w → e.vars.get? y = some w
  objects : e'.objects = e.objects
  solvers : e'.solvers = e.solvers
  guards : e'.guards = e.guards
  enabled : e'.enabledFor = e.enabledFor

instance : IsPreorder Engine (Drops doomed) where
  refl _ := ⟨fun h ↦ h, fun h ↦ h, rfl, fun _ _ hw ↦ hw, rfl, rfl, rfl, rfl⟩
  trans _ _ _ h h' := ⟨fun hl ↦ h'.linked (h.linked hl), fun hn ↦ h'.nodup (h.nodup hn),
    h'.size.trans h.size, fun y w hw ↦ h.vars y w (h'.vars y w hw), h'.objects.trans h.objects,
    h'.solvers.trans h.solvers, h'.guards.trans h.guards, h'.enabled.trans h.enabled⟩

/-- What was gone is still gone. -/
theorem Drops.get?_eq_none (h : Drops doomed e e') (hx : e.vars.get? x = none) :
    e'.vars.get? x = none :=
  Option.eq_none_iff_forall_ne_some.2 fun w hw ↦ nomatch hx.symm.trans (h.vars x w hw)

/-- Doomed variables were dropped, one of them among them. -/
def DropsAt (doomed : Set VarId) (x : VarId) (e e' : Engine) : Prop :=
  Drops doomed e e' ∧ e'.vars.get? x = none

/-- A doomed variable may be dropped: the one that it is a part of is gone. -/
structure Droppable (doomed : Set VarId) (x : VarId) (e : Engine) : Prop where
  doomed : ∀ v, e.vars.get? x = some v → x ∈ doomed
  orphan : ∀ v y name, e.vars.get? x = some v → v.key = .part y name → e.vars.get? y = none

theorem Droppable.drops (h : Droppable doomed x e) (hd : Drops doomed' e e') :
    Droppable doomed x e' where
  doomed w hw := h.doomed w (hd.vars x w hw)
  orphan w y name hw hkey := hd.get?_eq_none (h.orphan w y name (hd.vars x w hw) hkey)

/-- Some constraints have forgotten a variable. -/
structure Forgets (x : VarId) (ids : List ConstraintId) (e e' : Engine) : Prop where
  objects : e'.objects = e.objects
  vars : e'.vars = e.vars
  solvers : e'.solvers = e.solvers
  guards : e'.guards = e.guards
  enabled : e'.enabledFor = e.enabledFor
  lists : ∀ id, (e'.constraints.get? id).map Constraint.vars =
    (e.constraints.get? id).map fun c ↦ if id ∈ ids then c.vars.filter (· != x) else c.vars

namespace Forgets

variable {ids : List ConstraintId} (h : Forgets x ids e e')
include h

theorem exists_before {c' : Constraint} (hc' : e'.constraints.get? id = some c') :
    ∃ c, e.constraints.get? id = some c ∧
      c'.vars = if id ∈ ids then c.vars.filter (· != x) else c.vars := by
  have hid := h.lists id
  rw [hc', Option.map_some] at hid
  obtain ⟨c, hc, heq⟩ := Option.map_eq_some_iff.1 hid.symm
  exact ⟨c, hc, heq.symm⟩

theorem nodup (hn : ∀ id c, e.constraints.get? id = some c → c.vars.Nodup) (id : ConstraintId)
    (c' : Constraint) (hc' : e'.constraints.get? id = some c') : c'.vars.Nodup := by
  obtain ⟨c, hc, hvars⟩ := h.exists_before hc'
  rw [hvars]
  split
  · exact (hn id c hc).filter _
  · exact hn id c hc

theorem spans_iff : e'.Spans y id ↔ e.Spans y id ∧ (id ∈ ids → y ≠ x) := by
  constructor
  · rintro ⟨c', hc', hy⟩
    obtain ⟨c, hc, hvars⟩ := h.exists_before hc'
    rw [hvars] at hy
    split at hy
    · next hid =>
      obtain ⟨hmem, hne⟩ := List.mem_filter.1 hy
      exact ⟨⟨c, hc, hmem⟩, fun _ ↦ by simpa using hne⟩
    · next hid => exact ⟨⟨c, hc, hy⟩, fun h ↦ absurd h hid⟩
  · rintro ⟨⟨c, hc, hy⟩, hne⟩
    have hid := h.lists id
    rw [hc, Option.map_some] at hid
    obtain ⟨c', hc', hvars⟩ := Option.map_eq_some_iff.1 hid
    refine ⟨c', hc', ?_⟩
    rw [hvars]
    split
    · next hid => exact List.mem_filter.2 ⟨hy, by simpa using hne hid⟩
    · exact hy

end Forgets

end Engine

namespace Step

theorem forgets_forgetAll (x : VarId) (ids : List ConstraintId) :
    Within (Forgets x ids) e (forIn ids PUnit.unit fun id _ ↦ do
      modifyConstraint id fun c => { c with vars := c.vars.filter (· != x) }
      pure (.yield PUnit.unit)) := by
  induction ids generalizing e with
  | nil => exact ⟨rfl, rfl, rfl, rfl, rfl, fun _ ↦ by simp only [List.not_mem_nil, if_false]; rfl⟩
  | cons id ids ih =>
    rw [List.forIn_cons]
    have hrest := ih (e := { e with constraints := e.constraints.modify id fun c =>
      { c with vars := c.vars.filter (· != x) } })
    have henabled : enabledFor { e with constraints := e.constraints.modify id fun c =>
        { c with vars := c.vars.filter (· != x) } } = e.enabledFor := enabledFor_modify fun _ ↦ ⟨rfl, rfl⟩
    refine ⟨hrest.objects, hrest.vars, hrest.solvers, hrest.guards, hrest.enabled.trans henabled,
      fun id' ↦ (hrest.lists id').trans ?_⟩
    dsimp only
    rw [Arena.get?_modify]
    by_cases hid : id' = id
    · -- forgetting twice is forgetting once
      subst hid
      rw [if_pos rfl, Option.map_map]
      congr 1
      funext c
      simp
    · simp [hid]

/-- Dropping several variables, given that each of them can be dropped. -/
theorem drops_dropAll {drop : VarId → Step PUnit} {l : List VarId}
    (h : ∀ p ∈ l, ∀ e', Drops doomed e e' → Linked doomed e'.Spans e' → Droppable doomed p e' →
      Within (DropsAt doomed p) e' (drop p))
    (hl : Linked doomed e.Spans e) (droppable : ∀ p ∈ l, Droppable doomed p e) :
    Within (fun e e' ↦ Drops doomed e e' ∧ ∀ p ∈ l, e'.vars.get? p = none) e
      (forIn l PUnit.unit fun p _ ↦ do
        drop p
        pure (.yield PUnit.unit)) := by
  induction l generalizing e with
  | nil => exact ⟨refl_of (Drops doomed) e, nofun⟩
  | cons p l ih =>
    rw [List.forIn_cons]
    obtain ⟨hdrops, hgone⟩ := h p List.mem_cons_self e (refl_of _ e) hl
      (droppable p List.mem_cons_self)
    obtain ⟨hrest, hgones⟩ := ih (e := (drop p e).2)
      (fun q hq e' he' ↦ h q (List.mem_cons_of_mem _ hq) e' (trans_of _ hdrops he'))
      (hdrops.linked hl) fun q hq ↦ (droppable q (List.mem_cons_of_mem _ hq)).drops hdrops
    refine ⟨trans_of (Drops doomed) hdrops hrest, fun q hq ↦ ?_⟩
    rcases List.mem_cons.1 hq with rfl | hq
    · exact hrest.get?_eq_none hgone
    · exact hgones q hq

/-- **Dropping.** The variable is gone, and nothing refers to it or to its parts. -/
theorem drops_dropWithin (n : Nat) (hl : Linked doomed e.Spans e) (hx : Droppable doomed x e)
    (hn : e.vars.cells.size ≤ n + x.index) : Within (DropsAt doomed x) e (dropWithin n x) := by
  induction n generalizing doomed e x with
  | zero =>
    refine ⟨refl_of (Drops doomed) e, ?_⟩
    show e.vars.get? x = none
    cases hget : e.vars.get? x with
    | none => rfl
    | some v =>
      have hlt : x.index < e.vars.cells.size := Arena.lt_next_of_get? hget
      omega
  | succ n ih =>
    unfold dropWithin
    refine .get_bind ?_
    split
    · next hnone => exact ⟨refl_of (Drops doomed) e, hnone⟩
    · next v hv =>
      let parts : Set VarId := {y | e.PartOf y x}
      have hl₁ := hl.remove hx.doomed
      refine .of_modify ?_
      refine (forgets_forgetAll x _).seq (fun _ e₂ h₂ ↦ ?_) fun _ _ _ h ↦ h
      have hvars₂ : ∀ y w, e₂.vars.get? y = some w ↔ y ≠ x ∧ e.vars.get? y = some w := by
        intro y w
        rw [h₂.vars, Arena.get?_remove]
        split
        · next h => exact ⟨nofun, fun h' ↦ absurd h h'.1⟩
        · next h => exact ⟨fun h' ↦ ⟨h, h'⟩, And.right⟩
      have hgone₂ : e₂.vars.get? x = none := by
        rw [h₂.vars, Arena.get?_remove, if_pos rfl]
      -- the constraints that have forgotten the variable are those that listed it
      have hl₂ : Linked (doomed ∪ parts) e₂.Spans e₂ := by
        refine (hl₁.of_tables h₂.objects h₂.vars).congr fun y i ↦ h₂.spans_iff.trans ?_
        constructor
        · rintro ⟨hspans, hne⟩
          refine ⟨?_, hspans⟩
          rintro rfl
          exact hne ((hl.lists y v i hv).2 hspans) rfl
        · rintro ⟨hne, hspans⟩
          exact ⟨hspans, fun _ ↦ hne⟩
      have hpart : ∀ p ∈ v.parts.values, x < p ∧ Droppable (doomed ∪ parts) p e₂ := by
        intro p hp
        obtain ⟨⟨name, q⟩, hmem, rfl⟩ := List.mem_map.1 hp
        obtain ⟨u, hu, hkey, -⟩ := hl.part x v name q hv hmem
        refine ⟨hl.younger q u x name hu hkey, fun _ _ ↦ .inr ⟨u, name, hu, hkey⟩, ?_⟩
        intro w y name' hw hkey'
        obtain rfl : w = u := Option.some.inj (((hvars₂ q w).1 hw).2.symm.trans hu)
        cases hkey.symm.trans hkey'
        exact hgone₂
      have hsize₂ : e₂.vars.cells.size = e.vars.cells.size := by
        rw [h₂.vars]
        exact congrArg Id.index (Arena.next_remove e.vars x)
      refine (drops_dropAll (fun p hp e' he' hl' hp' ↦ ih hl' hp' ?_) hl₂ fun p hp ↦
        (hpart p hp).2).seq (fun _ e₃ h₃ ↦ ?_) fun _ _ _ h ↦ h
      · have hlt : x.index < p.index := (hpart p hp).1
        rw [he'.size, hsize₂]
        omega
      obtain ⟨hdrops₃, hparts₃⟩ := h₃
      -- no part is left, so nothing but what was doomed before is doomed
      have hl₃ : Linked doomed e₃.Spans e₃ := by
        refine (hdrops₃.linked hl₂).congr_doomed fun y w hw ↦ ⟨.inl, ?_⟩
        rintro (hy | ⟨u, name, hu, hkey⟩)
        · exact hy
        · by_contra hy
          obtain ⟨v', hv', hfind⟩ := hl.registered y u x name hu hkey hy
          obtain rfl : v' = v := Option.some.inj (hv'.symm.trans hv)
          have hmem : y ∈ v'.parts.values := List.mem_map.2 ⟨_, SortedMap.mem_of_find? hfind, rfl⟩
          rw [hparts₃ y hmem] at hw
          cases hw
      have hdone : DropsAt doomed x e e₃ := by
        exact ⟨⟨fun _ ↦ hl₃, fun hn ↦ hdrops₃.nodup (h₂.nodup hn), hdrops₃.size.trans hsize₂,
          fun y w hw ↦ ((hvars₂ y w).1 (hdrops₃.vars y w hw)).2, hdrops₃.objects.trans h₂.objects,
          hdrops₃.solvers.trans h₂.solvers, hdrops₃.guards.trans h₂.guards,
          hdrops₃.enabled.trans h₂.enabled⟩, hdrops₃.get?_eq_none hgone₂⟩
      cases hcase : v.key with
      | field obj name => exact hdone
      | part parent name =>
        -- the variable that it was a part of is gone
        have hparent := hdone.1.get?_eq_none (hx.orphan v parent name hv hcase)
        have hsame : { e₃ with vars := e₃.vars.modify parent fun p ↦
            { p with parts := p.parts.erase name } } = e₃ := by
          rw [Arena.modify_of_none hparent]
        show DropsAt doomed x e { e₃ with vars := e₃.vars.modify parent fun p ↦
          { p with parts := p.parts.erase name } }
        rw [hsame]
        exact hdone

theorem drops_drop (hl : Linked doomed e.Spans e) (hx : Droppable doomed x e) :
    Within (DropsAt doomed x) e (drop x) :=
  .get_bind (drops_dropWithin _ hl hx (Nat.le_add_right _ _))

end Step

namespace Call

/-- An intercepted field becomes plain, and its variable is dropped. -/
theorem drops_release (ht : e.Tied) (hx : e.variableOf? obj name = some x) (value : Value) :
    Step.Within (fun e₁ e' ↦ DropsAt (insert x ∅) x e₁ e' ∧ e'.Tied)
      (e.withSlot obj name (.plain value)) (Step.drop x) := by
  obtain ⟨v, hv, hkey, -⟩ := (ht.linked.slot obj name x).1 hx
  have hdoomed : Linked (insert x ∅) (e.withSlot obj name (.plain value)).Spans
      (e.withSlot obj name (.plain value)) := ht.linked.doom hx value
  have hdroppable : Droppable (insert x ∅) x (e.withSlot obj name (.plain value)) := by
    refine ⟨fun _ _ ↦ Set.mem_insert x ∅, fun w y name' hw hkey' ↦ ?_⟩
    obtain rfl : w = v := Option.some.inj (hw.symm.trans hv)
    cases hkey.symm.trans hkey'
  obtain ⟨hdrops, hgone⟩ := Step.drops_drop hdoomed hdroppable
  refine ⟨⟨hdrops, hgone⟩, (hdrops.linked hdoomed).congr_doomed fun y w hw ↦ ?_,
    hdrops.nodup ht.nodup⟩
  -- the doomed variable is gone, so nothing that is live is doomed
  refine iff_of_false (Set.notMem_empty y) ?_
  rintro (rfl | hy)
  · cases hgone.symm.trans hw
  · exact hy

theorem maintains_release (hx : e.variableOf? obj name = some x) (value : Value) :
    Within Maintains e (do
      setSlot obj name (.plain value)
      Step.drop x) := by
  intro _ ht
  obtain ⟨o, ho⟩ := exists_object hx
  rw [bind_of_ok (setSlot_eq ho _)]
  exact (drops_release ht hx value).2

theorem maintains_unconstrainWithin (n : Nat) (obj : ObjectId) (field : String) :
    Within Maintains e (unconstrainWithin n obj field) := by
  induction n generalizing e obj field with
  | zero => exact .pure _
  | succ n ih =>
    refine .slotAt_bind fun slot hslot ↦ ?_
    cases slot with
    | plain v => exact .pure _
    | intercepted x =>
      have hread : Within SameShape e (liftM (Step.read x)) := .lift (Step.sameShape_read x)
      refine hread.bind_of (fun _ ↦ SameShape.maintains) fun v e₁ _ h₁ ↦ ?_
      have hx : e₁.variableOf? obj field = some x := by
        rw [h₁.slots, variableOf?, hslot]
      rw [← bind_assoc]
      refine (maintains_release hx v).bind fun _ e₂ _ _ ↦ ?_
      refine .lift_bind (SameShape.maintains Step.sameShape_tick) fun _ e₃ _ _ ↦ ?_
      cases v with
      | object inner =>
        refine Within.bind ?_ fun names e₄ _ _ ↦ ?_
        · exact .objectAt_bind fun _ _ ↦ .pure _
        · refine Within.bind (.forIn fun name _ _ e₅ _ ↦ .get_bind ?_) fun _ _ _ _ ↦ .pure _
          split
          · exact (ih inner name).bind fun _ _ _ _ ↦ .pure _
          · exact .pure _
      | _ => exact .pure _

/-- **Unconstraining a field** keeps the tables tied. -/
theorem maintains_unconstrain (obj : ObjectId) (field : String) :
    Within Maintains e (unconstrain obj field) := .get_bind (maintains_unconstrainWithin _ obj field)

end Call

end LiveConstraints

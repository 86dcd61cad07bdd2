import LiveConstraints.Proofs.Algorithms.Relaxing
/-!
# What a relaxation run moves

Which variables a projection moves is decided anew for each violated relation, but only from pins,
read-only flags and stays, and none of these changes during a run. So a variable that no projection onto
an active relation moves at the start is never moved (`Relaxation.value_of_sweeps_of_spared`).

Three kinds of variables are spared in this way: those that are read-only, those that occur in none of
the relations, and those with a stay that meet a variable without one in each of their relations
(`Relaxation.unmoved_of_ask`). A variable that a demand names is none of the last two kinds, since a run
starts by setting it.
-/

namespace LiveConstraints.Relaxation

variable {r r' : Relaxation} {s s' : Slots} {pinned : List ExtVar} {x y : ExtVar} {rel : LinearRelation}
  {fixed : Option ExtVar} {request : Option (ExtVar × Value)} {f : LinearForm} {e : ExtVar × Float}

/-- The relations of the enabled relation clauses, in order of installation. -/
def relations (r : Relaxation) : List LinearRelation :=
  r.model.enabled.flatMap fun
    | (.relation rels, _) => rels
    | (.keeps _ _, _) => []

/-- The variables that the enabled demands name, whatever their priority. -/
def targets (r : Relaxation) : List ExtVar := (r.model.enabled.filterMap start?).map Prod.fst

/-- A call moves the variable in no projection: the variable is the suggested one, or read-only, or named
by an enabled demand that is required. -/
def Immovable (r : Relaxation) (request : Option (ExtVar × Value)) (x : ExtVar) : Prop :=
  some x = request.map Prod.fst ∨ r.model.slots.isReadonly x = true ∨
    x ∈ r.model.enabled.filterMap kept?

instance (r : Relaxation) (request : Option (ExtVar × Value)) (x : ExtVar) :
    Decidable (r.Immovable request x) :=
  inferInstanceAs (Decidable (_ ∨ _))

/-- An active relation is one of an enabled relation clause or that of a required demand. -/
theorem mem_active_cases (h : rel ∈ (r.task fixed).active) :
    rel ∈ r.relations ∨ ∃ x ∈ r.targets, ∃ v, rel = keepsRelation x v := by
  rw [task_eq] at h
  obtain ⟨⟨rels | ⟨x, v⟩, priority⟩, hc, hrel⟩ := List.mem_flatMap.1 h
  · exact .inl (List.mem_flatMap.2 ⟨_, hc, hrel⟩)
  · have hx : x ∈ r.targets := List.mem_map.2 ⟨(x, v), List.mem_filterMap.2 ⟨_, hc, rfl⟩, rfl⟩
    rw [demanded] at hrel
    split at hrel
    · exact .inr ⟨x, hx, v, List.mem_singleton.1 hrel⟩
    · cases hrel

/-- What a call never moves is what its run holds. -/
theorem held_iff (hs : (r.model.slots.suggested request).Reassigned s) :
    Held (r.task (request.map Prod.fst)).pinned s x ↔ r.Immovable request x := by
  have hflag : s.isReadonly x = r.model.slots.isReadonly x :=
    ((Slots.reassigned_suggested r.model.slots request).trans hs).isReadonly x
  rw [Held, Immovable, task_eq, hflag, List.mem_append, Option.mem_toList]
  constructor
  · rintro ((hx | hx) | hx)
    · exact .inl hx.symm
    · exact .inr (.inr hx)
    · exact .inr (.inl hx)
  · rintro (hx | hx | hx)
    · exact .inl (.inl hx.symm)
    · exact .inr hx
    · exact .inl (.inr hx)

/-! ### Which variables a projection moves -/

theorem mem_vars_of_mem_movable (he : e ∈ movable pinned s f) : e.1 ∈ f.vars :=
  List.mem_map_of_mem (List.mem_of_mem_filter (mem_free_of_mem_movable he))

theorem exists_mem_free (hx : x ∈ f.vars) (hheld : ¬ Held pinned s x) :
    ∃ e ∈ f.coefficients.entries.filter fun e ↦ !pinned.contains e.1 && !s.isReadonly e.1, e.1 = x := by
  obtain ⟨e, he, rfl⟩ := List.mem_map.1 hx
  simp only [Held, not_or, Bool.not_eq_true] at hheld
  exact ⟨e, List.mem_filter.2 ⟨he, by simp [hheld.1, hheld.2]⟩, rfl⟩

/-- Where a movable variable has no stay, only variables without a stay move. -/
theorem isFree_of_mem_movable (hy : y ∈ f.vars) (hheld : ¬ Held pinned s y) (hfree : s.isFree y = true)
    (he : e ∈ movable pinned s f) : s.isFree e.1 = true := by
  obtain ⟨d, hd, rfl⟩ := exists_mem_free hy hheld
  have hpreferred : d ∈ (f.coefficients.entries.filter fun e ↦
      !pinned.contains e.1 && !s.isReadonly e.1).filter fun e ↦ s.isFree e.1 :=
    List.mem_filter.2 ⟨hd, hfree⟩
  unfold movable at he
  dsimp only at he
  split at he
  · next hempty =>
    -- the preferred variables include `d`, so they are not empty
    rw [List.isEmpty_iff.1 hempty] at hpreferred
    cases hpreferred
  · exact (List.mem_filter.1 he).2

/-- A run spares a variable that no demand names if each projection onto one of its relations has a
better variable to move. -/
theorem spared_of_relations (hs : (r.model.slots.suggested request).Reassigned s) (hx : x ∉ r.targets)
    (hrels : ∀ rel ∈ r.relations, x ∈ rel.form.vars → r.model.slots.isFree x = false ∧
      ∃ y ∈ rel.form.vars, r.model.slots.isFree y = true ∧ ¬ r.Immovable request y) :
    Spared (r.task (request.map Prod.fst)).pinned (r.task (request.map Prod.fst)).active s x := by
  have hfree (z : ExtVar) : s.isFree z = r.model.slots.isFree z :=
    ((Slots.reassigned_suggested r.model.slots request).trans hs).isFree z
  rintro rel hrel e he rfl
  -- were it moved, then by an enabled relation that has a better variable, or as the target of a demand
  have hvar := mem_vars_of_mem_movable he
  rcases mem_active_cases hrel with hrel | ⟨z, hz, v, rfl⟩
  · obtain ⟨hstay, y, hy, hyfree, hmoves⟩ := hrels rel hrel hvar
    have hbetter := isFree_of_mem_movable hy (mt (held_iff hs).1 hmoves) ((hfree y).trans hyfree) he
    rw [hfree, hstay] at hbetter
    cases hbetter
  · have hmem : e.1 ∈ (LinearForm.ofVariable z).vars := hvar
    rw [LinearForm.vars_ofVariable, List.mem_singleton] at hmem
    exact hx (hmem ▸ hz)

/-! ### Calls -/

/-- Starting does not touch a variable that is read-only or that no demand names. -/
theorem value_of_start_of_untargeted (hx : r.model.slots.isReadonly x = true ∨ x ∉ r.targets)
    (h : start (request.map Prod.fst) (r.task (request.map Prod.fst)).starts
      (r.model.slots.suggested request) = .ok s) :
    s.value x = (r.model.slots.suggested request).value x := by
  refine value_of_start (fun e he heq ↦ .inr ?_) h
  subst heq
  rw [task_eq] at he
  rcases hx with hro | hx
  · exact ((Slots.reassigned_suggested r.model.slots request).isReadonly e.1).trans hro
  · exact absurd (List.mem_map_of_mem he) hx

/-- A variable that a call neither suggests nor starts nor moves has the same value afterwards. -/
theorem value_of_ask (h : r.ask request = (.ok (), r')) (hx : some x ≠ request.map Prod.fst)
    (hspared : r.model.slots.isReadonly x = true ∨ x ∉ r.targets ∧
      ∀ rel ∈ r.relations, x ∈ rel.form.vars → r.model.slots.isFree x = false ∧
        ∃ y ∈ rel.form.vars, r.model.slots.isFree y = true ∧ ¬ r.Immovable request y) :
    r'.model.slots.value x = r.model.slots.value x := by
  obtain ⟨hrun, -, -⟩ := of_ask_ok h
  obtain ⟨s, hstart, hsweeps⟩ := of_run_ok hrun
  have hflags := reassigned_of_start hstart
  have hswept : r'.model.slots.value x = s.value x := by
    refine value_of_sweeps_of_spared ?_ hsweeps
    rcases hspared with hro | ⟨htarget, hrels⟩
    · exact ((held_iff hflags).2 (.inr (.inl hro))).spared _
    · exact spared_of_relations hflags htarget hrels
  rw [hswept, value_of_start_of_untargeted (hspared.imp_right And.left) hstart,
    Slots.value_suggested hx]

/-- **Relaxation moves only what it may.** After a call that succeeds, a variable that is not the
suggested one holds the value it held before
* if it is read-only;
* if no enabled demand names it and it occurs in no enabled relation;
* if no enabled demand names it, it carries a stay, and each enabled relation in which it occurs has a
  variable that exists, carries no stay and is not immovable in this call. -/
theorem unmoved_of_ask (h : r.ask request = (.ok (), r')) (hx : some x ≠ request.map Prod.fst) :
    (r.model.slots.isReadonly x = true → r'.model.slots.value x = r.model.slots.value x) ∧
    (x ∉ r.targets → (∀ rel ∈ r.relations, x ∉ rel.form.vars) →
      r'.model.slots.value x = r.model.slots.value x) ∧
    (x ∉ r.targets → r.model.slots.isFree x = false →
      (∀ rel ∈ r.relations, x ∈ rel.form.vars →
        ∃ y ∈ rel.form.vars, r.model.slots.isFree y = true ∧ ¬ r.Immovable request y) →
      r'.model.slots.value x = r.model.slots.value x) := by
  refine ⟨fun hro ↦ value_of_ask h hx (.inl hro), fun htarget hrels ↦ ?_, fun htarget hstay hrels ↦ ?_⟩
  · exact value_of_ask h hx (.inr ⟨htarget, fun rel hrel hmem ↦ absurd hmem (hrels rel hrel)⟩)
  · exact value_of_ask h hx (.inr ⟨htarget, fun rel hrel hmem ↦ ⟨hstay, hrels rel hrel hmem⟩⟩)

/-- Two variables that add up to ten, the first of which has a stay; a read-only variable that adds up to
twelve with the second one; and a variable on its own. -/
def seesaw : Relaxation :=
  let (_, r) := declare { maxSweeps := 1000, tolerance := 1e-9 } (.number 2)
  let (_, r) := r.declare (.number 3)
  let (_, r) := r.declare (.number 4)
  let (_, r) := r.declare (.number 7)
  let (_, r) := r.compile (.binary .eq (.binary .add (.var ⟨0⟩) (.var ⟨1⟩)) (.const (.number 10)))
  let (_, r) := r.compile (.binary .eq (.binary .add (.var ⟨1⟩) (.var ⟨2⟩)) (.const (.number 12)))
  let (_, model) := r.model.setEnabled ⟨0⟩ (some .weak)
  let (_, model) := model.setEnabled ⟨1⟩ (some .required)
  let (_, model) := model.setStay ⟨0⟩ .weak
  { r with model := model.setReadonly ⟨2⟩ true }

set_option maxRecDepth 4000 in
/-- Only the second variable moves. -/
theorem unmoved_of_ask_seesaw :
    ∃ r', seesaw.ask none = (.ok (), r') ∧
      r'.model.slots.value ⟨0⟩ = seesaw.model.slots.value ⟨0⟩ ∧
      r'.model.slots.value ⟨1⟩ = .number 8 ∧
      r'.model.slots.value ⟨2⟩ = seesaw.model.slots.value ⟨2⟩ ∧
      r'.model.slots.value ⟨3⟩ = seesaw.model.slots.value ⟨3⟩ := by
  have hok : (seesaw.ask none).1 = .ok () := Except.eq_ok_of_isOk (by decide +kernel)
  have h : seesaw.ask none = (.ok (), (seesaw.ask none).2) := Prod.ext hok rfl
  refine ⟨_, h, ?_, by decide +kernel, ?_, ?_⟩
  · exact (unmoved_of_ask h nofun).2.2 (by decide +kernel) (by decide +kernel) (by decide +kernel)
  · exact (unmoved_of_ask h nofun).1 (by decide +kernel)
  · exact (unmoved_of_ask h nofun).2.1 (by decide +kernel) (by decide +kernel)

end LiveConstraints.Relaxation

import LiveConstraints.Proofs.Demand
/-!
# Domain search is sound

A search ends with an assignment that passed the consistency check when every variable of every
enabled predicate was assigned (`DomainSearch.consistent_of_explore`). The assignment is ordered by
variable, so writing it back gives each variable the one value that was checked, provided the
variable still exists; each enabled predicate is then true of the solver's own variables
(`DomainSearch.met_of_search`).
-/

namespace LiveConstraints.DomainSearch

/-! ### Exploring -/

variable {p : Problem} {a : Assignment} {values : SortedMap ExtVar Value} {nodes m : Nat}

theorem exists_of_tryEach {maxNodes : Nat}
    {explore : SortedMap ExtVar Value → Nat → Exploration} {x : ExtVar}
    {start : SortedMap ExtVar Value} {vs : List Value}
    (h : tryEach maxNodes explore x start vs nodes = .found values m) :
    ∃ v n, explore (start.insert x v) n = .found values m := by
  induction vs generalizing nodes with
  | nil => cases h
  | cons v vs ih =>
    unfold tryEach at h
    split at h
    · cases h
    · split at h
      · exact ih h
      · exact ⟨v, _, h⟩

/-- What a successful exploration ends with: every variable assigned, the assignment consistent and
still ordered, and the variables outside the exploration as they were. -/
theorem consistent_of_explore {xs : List ExtVar} (h : explore p xs a nodes = .found values m) :
    p.consistent ⟨values, a.assigned ++ xs⟩ = true ∧ (a.values.Ordered → values.Ordered) ∧
      ∀ x, (a.values.find? x).isSome = true → (values.find? x).isSome = true := by
  induction xs generalizing a nodes with
  | nil =>
    unfold explore at h
    split at h
    · next hconsistent =>
      cases h
      rw [List.append_nil]
      exact ⟨hconsistent, id, fun _ ↦ id⟩
    · cases h
  | cons x xs ih =>
    unfold explore at h
    split at h
    · cases h
    · obtain ⟨v, n, h⟩ := exists_of_tryEach h
      obtain ⟨hconsistent, hordered, hkept⟩ := ih h
      refine ⟨?_, fun ha ↦ hordered (ha.insert x v), fun y hy ↦ hkept y ?_⟩
      · rwa [List.append_assoc, List.singleton_append] at hconsistent
      · rw [SortedMap.find?_insert]
        split
        · rfl
        · exact hy

/-! ### Writing the assignment back -/

theorem value_foldl_assign_of_not_mem {es : List (ExtVar × Value)} {s : Slots} {x : ExtVar}
    (h : ∀ e ∈ es, e.1 ≠ x) : (es.foldl (fun s e ↦ s.assign e.1 e.2) s).value x = s.value x := by
  induction es generalizing s with
  | nil => rfl
  | cons e es ih =>
    rw [List.foldl_cons, ih fun e' he' ↦ h e' (List.mem_cons_of_mem _ he'),
      Slots.value_assign_of_ne (h e List.mem_cons_self).symm]

theorem reassigned_foldl_assign (es : List (ExtVar × Value)) (s : Slots) :
    s.Reassigned (es.foldl (fun s e ↦ s.assign e.1 e.2) s) := by
  induction es generalizing s with
  | nil => exact .refl _
  | cons e es ih => exact (Slots.Reassigned.assign ..).trans (ih _)

theorem value_foldl_assign {es : List (ExtVar × Value)} {s : Slots} {x : ExtVar} {v : Value}
    (hes : es.Pairwise fun a b ↦ a.1 < b.1) (hx : s.contains x = true) (h : (x, v) ∈ es) :
    (es.foldl (fun s e ↦ s.assign e.1 e.2) s).value x = v := by
  induction es generalizing s with
  | nil => exact absurd h (by simp)
  | cons e es ih =>
    obtain ⟨hlt, hes⟩ := List.pairwise_cons.1 hes
    rw [List.foldl_cons]
    rcases List.mem_cons.1 h with rfl | h
    · -- no later entry is about the same variable
      have hne : ∀ e' ∈ es, e'.1 ≠ x := fun e' he' heq ↦ by
        have hlt' := hlt e' he'
        rw [heq] at hlt'
        exact Nat.lt_irrefl _ hlt'
      rw [value_foldl_assign_of_not_mem hne]
      exact Slots.value_assign_self hx
    · have hx' : (s.assign e.1 e.2).contains x = true := by
        rw [(Slots.Reassigned.assign s e.1 e.2).contains]
        exact hx
      exact ih hes hx' h

/-! ### Runs -/

variable {d : DomainSearch} {fixed : Option ExtVar} {s s' : Slots}

theorem mem_involved {x : ExtVar} : x ∈ d.involved ↔ ∃ t ∈ d.predicates, t.Mentions x := by
  have hfold : ∀ (ts : List Term) (seen : List ExtVar),
      x ∈ ts.foldl (fun seen t ↦ t.collectVariables seen) seen
        ↔ x ∈ seen ∨ ∃ t ∈ ts, t.Mentions x := by
    intro ts
    induction ts with
    | nil => simp
    | cons t ts ih =>
      intro seen
      rw [List.foldl_cons, ih, Term.mem_collectVariables]
      simp [or_assoc]
  rw [involved, hfold]
  simp

theorem startValues_ok :
    (d.startValues fixed s).Ordered ∧
      ∀ x ∈ d.involved, ((d.startValues fixed s).find? x).isSome = true := by
  have hkept : ∀ (ks : List (ExtVar × Value)) (m : SortedMap ExtVar Value), m.Ordered →
      (ks.foldl (fun m k ↦ m.insert k.1 k.2) m).Ordered := by
    intro ks
    induction ks with
    | nil => exact fun _ hm ↦ hm
    | cons k ks ih => exact fun _ hm ↦ ih _ (hm.insert _ _)
  have hfill : ∀ (xs : List ExtVar) (m : SortedMap ExtVar Value), m.Ordered →
      (xs.foldl (fun m x ↦ if m.contains x then m else m.insert x (s.value x)) m).Ordered ∧
        ∀ x, x ∈ xs ∨ (m.find? x).isSome = true →
          ((xs.foldl (fun m x ↦ if m.contains x then m else m.insert x (s.value x)) m).find?
            x).isSome = true := by
    intro xs
    induction xs with
    | nil => exact fun _ hm ↦ ⟨hm, fun _ h ↦ h.elim (fun h ↦ absurd h (by simp)) id⟩
    | cons y xs ih =>
      intro m hm
      rw [List.foldl_cons]
      split
      · next hy =>
        refine ⟨(ih m hm).1, fun x hx ↦ (ih m hm).2 x ?_⟩
        rcases hx with hx | hx
        · rcases List.mem_cons.1 hx with rfl | hx
          · exact .inr hy
          · exact .inl hx
        · exact .inr hx
      · have hins := hm.insert y (s.value y)
        refine ⟨(ih _ hins).1, fun x hx ↦ (ih _ hins).2 x ?_⟩
        rw [SortedMap.find?_insert]
        rcases hx with hx | hx
        · rcases List.mem_cons.1 hx with rfl | hx
          · exact .inr (by simp)
          · exact .inl hx
        · refine .inr ?_
          split
          · rfl
          · exact hx
  have hfilled := hfill d.involved _ (hkept (d.keepers fixed) ∅ SortedMap.ordered_empty)
  exact ⟨hfilled.1, fun x hx ↦ hfilled.2 x (.inl hx)⟩

theorem mem_predicates {t : Term} {priority : Priority}
    (h : (.relation t, priority) ∈ d.model.enabled) : t ∈ d.predicates :=
  List.mem_filterMap.2 ⟨_, h, rfl⟩

theorem reassigned_of_search (h : d.search fixed s = .ok s') : s.Reassigned s' := by
  unfold search at h
  dsimp only at h
  split at h
  · cases h
    exact reassigned_foldl_assign _ _
  · cases h
  · cases h

/-- **Domain search is sound.** After a successful search every enabled predicate is true, provided
that the variables of the enabled predicates exist. -/
theorem met_of_search (hlive : ∀ t ∈ d.predicates, ∀ x, t.Mentions x → s.contains x = true)
    (h : d.search fixed s = .ok s') {t : Term} (ht : t ∈ d.predicates) :
    (t.evaluate s'.value).isTrue = true := by
  unfold search at h
  dsimp only at h
  split at h
  · next values nodes hfound =>
    cases h
    obtain ⟨hconsistent, hordered, hkept⟩ := consistent_of_explore hfound
    obtain ⟨hstart, hall⟩ : (d.startValues fixed s).Ordered ∧
        ∀ x ∈ d.involved, ((d.startValues fixed s).find? x).isSome = true := startValues_ok
    -- at the leaf every variable of the predicate is assigned, so its check was made
    have hchecked : (t.evaluate (Assignment.value ⟨values,
        (d.involved.filter fun x ↦ !(d.searchOrder fixed s).contains x)
          ++ d.searchOrder fixed s⟩)).isTrue = true := by
      refine List.all_eq_true.1 hconsistent ⟨t, t.vars⟩ (List.mem_filter.2 ⟨?_, ?_⟩)
      · exact List.mem_map.2 ⟨t, ht, rfl⟩
      · refine List.all_eq_true.2 fun x hx ↦ ?_
        have hinv : x ∈ d.involved := mem_involved.2 ⟨t, ht, Term.mem_vars.1 hx⟩
        by_cases hord : x ∈ d.searchOrder fixed s <;> simp [hord, hinv]
    rw [← hchecked]
    refine congrArg Value.isTrue (Term.evaluate_congr fun x hx ↦ ?_)
    obtain ⟨v, hv⟩ := Option.isSome_iff_exists.1
      (hkept x (hall x (mem_involved.2 ⟨t, ht, hx⟩)))
    rw [Assignment.value, hv, Option.getD_some]
    exact value_foldl_assign (hordered hstart) (hlive t ht x hx) (SortedMap.mem_of_find? hv)
  · cases h
  · cases h

end LiveConstraints.DomainSearch

import LiveConstraints.Proofs.Algorithms.Moving
import LiveConstraints.Proofs.Algorithms.Settling
import LiveConstraints.Proofs.Numbers.Distance
/-!
# Required demands

A required demand that a variable keeps a value is met in three ways. Relaxation pins the variable and checks
the demand as a relation (`Relaxation.keeps_of_ask`). A plan determines the variable, so that no equation
computes it, and checks the demand where the variable may not be set (`Dataflow.keeps_of_plans`). A search
takes the variable out of what it searches (`DomainSearch.keeps_of_ask`).

Only relaxation checks in the end. A plan sets the targets of all demands one after another, and a search
those of the required ones, so the last demand about a variable decides, in a plan even if it is a weaker one;
and a search puts the value in without asking whether the variable is read-only, and not at all if it is the
suggested one. Each of these leaves a required demand unmet or moves what may not move (`exists_unkept`).
-/

namespace LiveConstraints

/-- Two values are near each other or equal. -/
def Value.Agrees (u v : Value) : Prop := u.near v = true ∨ u = v

/-! ### Relaxation -/

namespace Relaxation

variable {r r' : Relaxation} {s s' : Slots} {x : ExtVar} {v n tolerance : Float}
  {fixed : Option ExtVar} {request : Option (ExtVar × Value)}

/-- The numbers that a call works on are finite. -/
structure Finite (r : Relaxation) (request : Option (ExtVar × Value)) : Prop where
  /-- Every variable holds a finite number. -/
  values : ∀ x, r.model.slots.contains x = true →
    ∃ n, r.model.slots.value x = .number n ∧ n.isFinite = true
  /-- Every demand is for a finite number. -/
  demands : ∀ x v priority, (.keeps x v, priority) ∈ r.model.enabled → v.isFinite = true
  /-- The suggestion is a finite number. -/
  suggested : ∀ x v, request = some (x, v) → ∃ n, v = .number n ∧ n.isFinite = true
  /-- The tolerance is a number. -/
  tolerance : r.tolerance.isNaN = false

/-- The relation of a demand compares the distance with the tolerance. -/
theorem abs_sub_le_of_keepsRelation (hn : n.isFinite = true) (hv : v.isFinite = true)
    (htolerance : tolerance.isNaN = false) (hx : s.value x = .number n)
    (h : (keepsRelation x v).violation? s.number tolerance = none) : (n - v).abs ≤ tolerance := by
  have hnumber : s.number x = n := by rw [Slots.number_eq, numberOf, hx]; rfl
  have hresidual : (keepsRelation x v).form.evaluate s.number = n + (0.0 + -v) := by
    show -0.0 + 1.0 * s.number x + (0.0 + -v) = _
    rw [Numbers.neg_zero_add, Numbers.one_mul, hnumber]
  have hholds : ¬ tolerance < (n - v).abs := by
    intro hlt
    unfold LinearRelation.violation? at h
    dsimp only at h
    rw [hresidual] at h
    have hviolated : tolerance < (n + (0.0 + -v)).abs := by rwa [Numbers.abs_add_neg]
    simp [keepsRelation, hviolated] at h
  exact Numbers.le_of_not_lt (Numbers.isNaN_abs_sub hn hv) htolerance hholds

/-- Starting leaves a variable with its value or with one that it starts from. -/
theorem value_of_start_cases {starts : List (ExtVar × Float)} (h : start fixed starts s = .ok s') :
    s'.value x = s.value x ∨ ∃ v, (x, v) ∈ starts ∧ s'.value x = .number v := by
  induction starts generalizing s with
  | nil =>
    cases h
    exact .inl rfl
  | cons e starts ih =>
    obtain ⟨s₁, h₁, h⟩ := Except.of_bind_ok h
    -- a later start decides, and otherwise this one
    have hrest : s'.value x = s₁.value x ∨ ∃ v, (x, v) ∈ e :: starts ∧ s'.value x = .number v :=
      (ih h).imp_right fun ⟨v, hv, hvalue⟩ ↦ ⟨v, List.mem_cons_of_mem e hv, hvalue⟩
    dsimp only at h₁
    split at h₁
    · cases h₁
      exact hrest
    · obtain ⟨hexists, rfl⟩ := Slots.of_assign?_ok h₁
      by_cases hx : x = e.1
      · subst hx
        refine hrest.elim (fun hvalue ↦ .inr ⟨e.2, List.mem_cons_self, ?_⟩) .inr
        exact hvalue.trans (Slots.value_assign_self hexists)
      · exact hrest.imp_left fun hvalue ↦ hvalue.trans (Slots.value_assign_of_ne hx)

/-- The target of a required demand ends with a finite number. -/
theorem exists_number_of_ask (hfinite : r.Finite request) (h : r.ask request = (.ok (), r'))
    (hx : r.model.slots.contains x = true) (hkept : x ∈ r.model.enabled.filterMap kept?) :
    ∃ n, r'.model.slots.value x = .number n ∧ n.isFinite = true := by
  obtain ⟨hrun, -, -⟩ := of_ask_ok h
  obtain ⟨s, hstart, hsweeps⟩ := of_run_ok hrun
  have hheld : Held (r.task (request.map Prod.fst)).pinned s x :=
    (held_iff (reassigned_of_start hstart)).2 (.inr (.inr hkept))
  rw [value_of_sweeps hheld hsweeps]
  rcases value_of_start_cases (x := x) hstart with hvalue | ⟨v, hv, hvalue⟩
  · rw [hvalue]
    rcases request with _ | ⟨y, v⟩
    · exact hfinite.values x hx
    · by_cases hxy : x = y
      · subst hxy
        obtain ⟨n, rfl, hn⟩ := hfinite.suggested x v rfl
        exact ⟨n, Slots.value_assign_self hx, hn⟩
      · rw [Slots.suggested, Slots.value_assign_of_ne hxy]
        exact hfinite.values x hx
  · rw [task_eq] at hv
    obtain ⟨⟨rels | ⟨y, w⟩, priority⟩, hc, heq⟩ := List.mem_filterMap.1 hv
    · cases heq
    · cases heq
      exact ⟨v, hvalue, hfinite.demands x v priority hc⟩

theorem keeps_of_ask (hfinite : r.Finite request) (h : r.ask request = (.ok (), r')) {priority : Priority}
    (hc : (.keeps x v, priority) ∈ r.model.enabled) (hrequired : priority.isRequired = true)
    (hx : r.model.slots.contains x = true) :
    ∃ n, r'.model.slots.value x = .number n ∧ (n - v).abs ≤ r.tolerance := by
  have hkept : x ∈ r.model.enabled.filterMap kept? :=
    List.mem_filterMap.2 ⟨_, hc, if_pos hrequired⟩
  obtain ⟨n, hvalue, hn⟩ := exists_number_of_ask hfinite h hx hkept
  obtain ⟨hrun, -, -⟩ := of_ask_ok h
  have hholds : (keepsRelation x v).violation? r'.model.slots.number r.tolerance = none := by
    refine violation?_of_run hrun hc ?_
    rw [demanded, if_pos hrequired]
    exact List.mem_singleton_self _
  exact ⟨n, hvalue, abs_sub_le_of_keepsRelation hn (hfinite.demands x v priority hc) hfinite.tolerance
    hvalue hholds⟩

end Relaxation

/-! ### Plans -/

namespace Dataflow

variable {d d' : Dataflow} {plan plan' : Plan} {fixed : List ExtVar} {keepers : List (ExtVar × Float × Bool)}
  {s s' : Slots} {x : ExtVar} {v : Float}

theorem mem_keepers {required : Bool} : (x, v, required) ∈ d.keepers ↔
    ∃ priority, (.keeps x v, priority) ∈ d.model.enabled ∧ priority.isRequired = required := by
  constructor
  · intro h
    obtain ⟨⟨_ | ⟨y, w⟩, priority⟩, hc, heq⟩ := List.mem_flatMap.1 h
    · cases heq
    · obtain rfl | heq := List.mem_singleton.1 heq
      exact ⟨priority, hc, rfl⟩
  · rintro ⟨priority, hc, rfl⟩
    exact List.mem_flatMap.2 ⟨_, hc, List.mem_singleton_self _⟩

/-- A target that may not be set is left alone, and each required demand finds its value near. -/
theorem near_of_foldlM_startOne (hx : x ∈ fixed ∨ plan.slots.isReadonly x = true)
    (h : keepers.foldlM (startOne fixed) plan = .ok plan') :
    plan'.slots.value x = plan.slots.value x ∧
      ∀ v, (x, v, true) ∈ keepers → (plan.slots.value x).near (.number v) = true := by
  induction keepers generalizing plan with
  | nil =>
    cases h
    exact ⟨rfl, nofun⟩
  | cons keeper keepers ih =>
    rw [List.foldlM_cons] at h
    obtain ⟨plan₁, h₁, h⟩ := Except.of_bind_ok h
    have hflags := (startOne_ok h₁).1
    obtain ⟨hvalue, hnear⟩ := ih (hx.imp_right (hflags.isReadonly x).trans) h
    obtain ⟨y, u, required⟩ := keeper
    have hsame : plan₁.slots.value x = plan.slots.value x := by
      rcases startOne_cases h₁ with ⟨-, rfl, -⟩ | ⟨hfree, -, hslots, -, -⟩
      · rfl
      · rw [hslots]
        refine Slots.value_assign_of_ne ?_
        rintro rfl
        exact hfree hx
    refine ⟨hvalue.trans hsame, fun v hmem ↦ ?_⟩
    rcases List.mem_cons.1 hmem with heq | hmem
    · cases heq
      rcases startOne_cases h₁ with ⟨-, -, hchecked⟩ | ⟨hfree, -⟩
      · exact hchecked rfl
      · exact absurd hx hfree
    · rw [← hsame]
      exact hnear v hmem

/-- A target that may be set ends with what one of its demands asks for. -/
theorem exists_keeper_of_foldlM_startOne (hfree : ¬ (x ∈ fixed ∨ plan.slots.isReadonly x = true))
    (hmem : ∃ v required, (x, v, required) ∈ keepers)
    (h : keepers.foldlM (startOne fixed) plan = .ok plan') :
    ∃ v required, (x, v, required) ∈ keepers ∧ plan'.slots.value x = .number v := by
  induction keepers generalizing plan with
  | nil =>
    obtain ⟨v, required, hmem⟩ := hmem
    cases hmem
  | cons keeper keepers ih =>
    rw [List.foldlM_cons] at h
    obtain ⟨plan₁, h₁, h₂⟩ := Except.of_bind_ok h
    have hfree₁ : ¬ (x ∈ fixed ∨ plan₁.slots.isReadonly x = true) := by
      rwa [(startOne_ok h₁).1.isReadonly]
    by_cases hlater : ∃ v required, (x, v, required) ∈ keepers
    · obtain ⟨v, required, hmem, hvalue⟩ := ih hfree₁ hlater h₂
      exact ⟨v, required, List.mem_cons_of_mem _ hmem, hvalue⟩
    · -- the first demand is the last one about the variable
      obtain ⟨v, required, hmem⟩ := hmem
      obtain rfl := (List.mem_cons.1 hmem).resolve_right fun hmem ↦ hlater ⟨v, required, hmem⟩
      refine ⟨v, required, List.mem_cons_self, ?_⟩
      have hkept := value_of_foldlM_startOne (x := x)
        (.inr fun v required hmem ↦ hlater ⟨v, required, hmem⟩) h₂
      rcases startOne_cases h₁ with ⟨hheld, -⟩ | ⟨-, hexists, hslots, -, -⟩
      · exact absurd hheld hfree
      · rw [hkept, hslots]
        exact Slots.value_assign_self hexists

/-- The target of a required demand has the same value after the passes as before them. -/
theorem value_of_propagate_of_required (h : d.propagate fixed s = .ok s') : ∃ started : Plan,
    d.keepers.foldlM (startOne fixed) { slots := s, determined := fixed, pending := d.equations }
      = .ok started ∧
    ∀ x v, (x, v, true) ∈ d.keepers → s'.value x = started.slots.value x := by
  have hwhole := h
  obtain ⟨started, hstarted, h⟩ := Except.of_bind_ok h
  obtain ⟨final, hfinal, h⟩ := Except.of_bind_ok h
  cases h
  refine ⟨started, hstarted, fun x v hmem ↦ ?_⟩
  obtain ⟨checked, solved, hcarries⟩ := carries_of_passes hfinal
  obtain ⟨hfixed, hrequired⟩ := determined_of_foldlM_startOne hstarted
  have hdetermined (hx : x ∈ started.determined) : final.slots.value x = started.slots.value x :=
    (hcarries.later.final x (mem_determined_determineReadonly.2 (.inl hx))).trans
      (congrArg (Slots.value · x) (determineReadonly_ok started).1)
  -- what is held or set by a required demand is determined, and what is read-only is never assigned
  rcases hrequired x v hmem with hx | hro | hx
  · exact hdetermined (hfixed x hx)
  · have hro : s.isReadonly x = true := ((foldlM_startOne hstarted).1.isReadonly x).symm.trans hro
    exact (value_of_propagate_of_readonly hro hwhole).trans
      (value_of_foldlM_startOne (.inl hro) hstarted).symm
  · exact hdetermined hx

/-- A target that may be set ends with what it is asked for, up to what later demands ask for. -/
theorem agrees_of_foldlM_startOne {required : Bool} {before after : List (ExtVar × Float × Bool)}
    (hfree : ¬ (x ∈ fixed ∨ plan.slots.isReadonly x = true))
    (hagree : ∀ u required, (x, u, required) ∈ after → (Value.number u).Agrees (.number v))
    (h : (before ++ (x, v, required) :: after).foldlM (startOne fixed) plan = .ok plan') :
    (plan'.slots.value x).Agrees (.number v) := by
  rw [List.foldlM_append] at h
  obtain ⟨plan₁, h₁, h⟩ := Except.of_bind_ok h
  rw [List.foldlM_cons] at h
  obtain ⟨plan₂, h₂, h⟩ := Except.of_bind_ok h
  have hfree₁ : ¬ (x ∈ fixed ∨ plan₁.slots.isReadonly x = true) := by
    rwa [(foldlM_startOne h₁).1.isReadonly]
  have hfree₂ : ¬ (x ∈ fixed ∨ plan₂.slots.isReadonly x = true) := by
    rwa [(startOne_ok h₂).1.isReadonly]
  by_cases hlater : ∃ u required, (x, u, required) ∈ after
  · obtain ⟨u, required', hmem, hvalue⟩ := exists_keeper_of_foldlM_startOne hfree₂ hlater h
    rw [hvalue]
    exact hagree u required' hmem
  · rcases startOne_cases h₂ with ⟨hheld, -⟩ | ⟨-, hexists, hslots, -, -⟩
    · exact absurd hheld hfree₁
    · rw [value_of_foldlM_startOne (.inr fun u required hmem ↦ hlater ⟨u, required, hmem⟩) h, hslots,
        Slots.value_assign_self hexists]
      exact .inr rfl

theorem keeps_of_plans (h : d.Plans fixed (.ok (), d')) {priority : Priority}
    {before after : List (Clause (List LinearForm) Float × Priority)}
    (henabled : d.model.enabled = before ++ (.keeps x v, priority) :: after)
    (hrequired : priority.isRequired = true)
    (hagree : x ∈ fixed ∨ d.model.slots.isReadonly x = true ∨
      ∀ u priority, (.keeps x u, priority) ∈ after → (Value.number u).Agrees (.number v)) :
    (d'.model.slots.value x).Agrees (.number v) := by
  obtain ⟨s, hrun, hflags, -⟩ := of_plans_ok h
  obtain ⟨started, hstarted, hvalue⟩ := value_of_propagate_of_required hrun
  have hc : (.keeps x v, priority) ∈ d.model.enabled := by simp [henabled]
  have hkeeper : (x, v, true) ∈ d.keepers := mem_keepers.2 ⟨priority, hc, hrequired⟩
  rw [hvalue x v hkeeper]
  by_cases hheld : x ∈ fixed ∨ s.isReadonly x = true
  · obtain ⟨hsame, hnear⟩ := near_of_foldlM_startOne hheld hstarted
    rw [hsame]
    exact .inl (hnear v hkeeper)
  · have hunheld := hheld
    rw [hflags.isReadonly, not_or] at hunheld
    have hlast := (hagree.resolve_left hunheld.1).resolve_left hunheld.2
    rw [keepers, henabled, List.flatMap_append, List.flatMap_cons] at hstarted
    refine agrees_of_foldlM_startOne hheld (fun u required hmem ↦ ?_) hstarted
    obtain ⟨⟨_ | ⟨y, w⟩, priority'⟩, hc', heq⟩ := List.mem_flatMap.1 hmem
    · cases heq
    · cases List.mem_singleton.1 heq
      exact hlast u priority' hc'

theorem value_of_plans_of_readonly (h : d.Plans fixed (.ok (), d'))
    (hro : d.model.slots.isReadonly x = true) (hx : x ∉ fixed) :
    d'.model.slots.value x = d.model.slots.value x := by
  obtain ⟨s, hrun, hflags, hvalue⟩ := of_plans_ok h
  rw [value_of_propagate_of_readonly ((hflags.isReadonly x).trans hro) hrun, hvalue x hx]

/-- A suggestion near the value that the variable holds changes nothing. -/
theorem suggest_of_near (hx : d.model.slots.contains x = true)
    (hnear : (d.model.slots.value x).near (.number v) = true) :
    d.suggest x (.number v) = (.ok (), d) := by
  obtain ⟨slot, hslot⟩ := Arena.contains_iff.1 hx
  rw [Slots.value, hslot] at hnear
  simp only [suggest, number?, hslot]
  exact if_pos hnear

end Dataflow

/-! ### Searches -/

namespace DomainSearch

variable {d d' : DomainSearch} {s : Slots} {x : ExtVar} {v : Value} {fixed : Option ExtVar}
  {request : Option (ExtVar × Value)}

/-- The last entry for a key is the one that stays. -/
theorem find?_foldl_insert (ks : List (ExtVar × Value)) (m : SortedMap ExtVar Value) :
    (∃ u, (x, u) ∈ ks ∧ (ks.foldl (fun m k ↦ m.insert k.1 k.2) m).find? x = some u) ∨
      (∀ u, (x, u) ∉ ks) ∧ (ks.foldl (fun m k ↦ m.insert k.1 k.2) m).find? x = m.find? x := by
  induction ks generalizing m with
  | nil => exact .inr ⟨nofun, rfl⟩
  | cons k ks ih =>
    obtain ⟨y, w⟩ := k
    rw [List.foldl_cons]
    rcases ih (m.insert y w) with ⟨u, hu, hfind⟩ | ⟨hnone, hfind⟩
    · exact .inl ⟨u, List.mem_cons_of_mem _ hu, hfind⟩
    · by_cases hxy : x = y
      · subst hxy
        exact .inl ⟨w, List.mem_cons_self, hfind.trans (SortedMap.find?_insert_self ..)⟩
      · refine .inr ⟨fun u hu ↦ ?_, hfind.trans (SortedMap.find?_insert_of_ne _ hxy _)⟩
        rcases List.mem_cons.1 hu with heq | hu
        · cases heq
          exact hxy rfl
        · exact hnone u hu

theorem mem_keepers : (x, v) ∈ d.keepers fixed ↔ some x ≠ fixed ∧
    ∃ priority, (.keeps x v, priority) ∈ d.model.enabled ∧ priority.isRequired = true := by
  constructor
  · intro h
    obtain ⟨⟨t | ⟨y, w⟩, priority⟩, hc, heq⟩ := List.mem_filterMap.1 h
    · cases heq
    · dsimp only at heq
      split at heq
      · next hkept =>
        cases heq
        rw [Bool.and_eq_true, bne_iff_ne] at hkept
        exact ⟨hkept.1, priority, hc, hkept.2⟩
      · cases heq
  · rintro ⟨hx, priority, hc, hrequired⟩
    refine List.mem_filterMap.2 ⟨_, hc, ?_⟩
    simp [hx, hrequired]

/-- What a search leaves out keeps the value that the search starts from. -/
theorem value_of_ask_of_not_searched (h : d.ask request = (.ok (), d'))
    (hx : x ∉ d.searchOrder (request.map Prod.fst) (d.model.slots.suggested request))
    (hexists : d.model.slots.contains x = true) :
    d'.model.slots.value x =
      ((d.startValues (request.map Prod.fst) (d.model.slots.suggested request)).find? x).getD
        ((d.model.slots.suggested request).value x) := by
  obtain ⟨-, hsearch⟩ := search_of_ask_ok h
  rw [search_eq] at hsearch
  split at hsearch
  case h_2 => cases hsearch
  case h_3 => cases hsearch
  case h_1 m n hfound =>
  have hfinds := finds_of_explore hfound
  have hslots : d'.model.slots = written (d.model.slots.suggested request) m := (Except.ok.inj hsearch).symm
  rw [hslots, value_written hfinds.ordered, (Slots.reassigned_suggested _ request).contains, if_pos hexists,
    Problem.find?_of_mem_leaves hfinds.leaf hx]

theorem keeps_of_ask (h : d.ask request = (.ok (), d')) {priority : Priority}
    {before after : List (Clause Term Value × Priority)}
    (henabled : d.model.enabled = before ++ (.keeps x v, priority) :: after)
    (hrequired : priority.isRequired = true) (hexists : d.model.slots.contains x = true)
    (hx : some x ≠ request.map Prod.fst)
    (hagree : ∀ u priority, (.keeps x u, priority) ∈ after → priority.isRequired = true →
      u.Agrees v) :
    (d'.model.slots.value x).Agrees v := by
  have hc : (.keeps x v, priority) ∈ d.model.enabled := by simp [henabled]
  have hkeeper : (x, v) ∈ d.keepers (request.map Prod.fst) :=
    mem_keepers.2 ⟨hx, priority, hc, hrequired⟩
  -- a target with a value to keep is not searched, so it has what it starts from
  have hpinned : x ∉ d.searchOrder (request.map Prod.fst) (d.model.slots.suggested request) := by
    intro hmem
    have hfree := (List.mem_filter.1 hmem).2
    have hkept : x ∈ (d.keepers (request.map Prod.fst)).map Prod.fst := List.mem_map_of_mem hkeeper
    simp [hkept] at hfree
  obtain ⟨u, hu, hfind⟩ : ∃ u, u.Agrees v ∧ (d.keptValues (request.map Prod.fst)).find? x = some u := by
    have htaken : (some x != request.map Prod.fst && priority.isRequired) = true := by
      simp [hx, hrequired]
    rw [keptValues, keepers, henabled, List.filterMap_append, List.filterMap_cons]
    dsimp only
    rw [if_pos htaken, List.foldl_append, List.foldl_cons]
    -- a later demand decides, and otherwise this one
    rcases find?_foldl_insert (x := x) _ _ with ⟨u, hu, hfind⟩ | ⟨-, hfind⟩
    · refine ⟨u, ?_, hfind⟩
      obtain ⟨⟨t | ⟨y, w⟩, priority'⟩, hc', heq⟩ := List.mem_filterMap.1 hu
      · cases heq
      · obtain ⟨htaken', heq⟩ := Option.ite_none_right_eq_some.1 heq
        cases heq
        exact hagree u priority' hc' (Bool.and_eq_true_iff.1 htaken').2
    · exact ⟨v, .inr rfl, hfind.trans (SortedMap.find?_insert_self ..)⟩
  rw [value_of_ask_of_not_searched h hpinned hexists, find?_startValues, hfind]
  exact hu

theorem value_of_ask_of_readonly (h : d.ask request = (.ok (), d'))
    (hro : d.model.slots.isReadonly x = true) (hx : some x ≠ request.map Prod.fst)
    (hkeeps : ∀ v priority, (.keeps x v, priority) ∈ d.model.enabled → priority.isRequired = false) :
    d'.model.slots.value x = d.model.slots.value x := by
  have hexists : d.model.slots.contains x = true := by
    by_contra hmissing
    have hnone : d.model.slots.get? x = none := Option.not_isSome_iff_eq_none.1 hmissing
    rw [Slots.isReadonly, hnone] at hro
    cases hro
  have hfixed : x ∉ d.searchOrder (request.map Prod.fst) (d.model.slots.suggested request) := by
    intro hmem
    have hfree := (List.mem_filter.1 hmem).2
    rw [(Slots.reassigned_suggested _ request).isReadonly, hro] at hfree
    simp at hfree
  rcases find?_foldl_insert (x := x) (d.keepers (request.map Prod.fst)) ∅ with ⟨u, hu, -⟩ | ⟨-, hfind⟩
  · obtain ⟨-, priority, hc, hrequired⟩ := mem_keepers.1 hu
    rw [hkeeps u priority hc] at hrequired
    cases hrequired
  · have hkept : (d.keptValues (request.map Prod.fst)).find? x = none := hfind
    rw [value_of_ask_of_not_searched h hfixed hexists, find?_startValues, hkept,
      Slots.value_suggested hx]
    split <;> rfl

end DomainSearch

/-! ### All three -/

/-- **Required demands bind.** Whatever variable a required demand is about, after a call that succeeds,
* in relaxation, it is within the tolerance of the demanded value;
* in a plan, it agrees with the demanded value, if the demands about it that come later do or it may not be
  set;
* in a search, the same holds if it is not suggested and the required demands about it that come later agree.

If it is read-only and not set by the call, it has the value it had, in a search if no required demand is
about it. A suggestion near the value that it holds makes no plan and changes nothing. -/
theorem required_keeps (x : ExtVar) :
    (∀ (r r' : Relaxation) request, r.Finite request → r.ask request = (.ok (), r') →
      (∀ v priority, (.keeps x v, priority) ∈ r.model.enabled → priority.isRequired = true →
        r.model.slots.contains x = true →
        ∃ n, r'.model.slots.value x = .number n ∧ (n - v).abs ≤ r.tolerance) ∧
      (r.model.slots.isReadonly x = true → some x ≠ request.map Prod.fst →
        r'.model.slots.value x = r.model.slots.value x)) ∧
    (∀ (d d' : Dataflow) fixed, d.Plans fixed (.ok (), d') →
      (∀ before v priority after, d.model.enabled = before ++ (.keeps x v, priority) :: after →
        priority.isRequired = true →
        (x ∈ fixed ∨ d.model.slots.isReadonly x = true ∨ ∀ u priority,
          (.keeps x u, priority) ∈ after → (Value.number u).Agrees (.number v)) →
        (d'.model.slots.value x).Agrees (.number v)) ∧
      (d.model.slots.isReadonly x = true → x ∉ fixed →
        d'.model.slots.value x = d.model.slots.value x)) ∧
    (∀ (d : Dataflow) v, d.model.slots.contains x = true →
      (d.model.slots.value x).near (.number v) = true → d.suggest x (.number v) = (.ok (), d)) ∧
    ∀ (d d' : DomainSearch) request, d.ask request = (.ok (), d') → some x ≠ request.map Prod.fst →
      (∀ before v priority after, d.model.enabled = before ++ (.keeps x v, priority) :: after →
        priority.isRequired = true → d.model.slots.contains x = true →
        (∀ u priority, (.keeps x u, priority) ∈ after → priority.isRequired = true → u.Agrees v) →
        (d'.model.slots.value x).Agrees v) ∧
      (d.model.slots.isReadonly x = true →
        (∀ v priority, (.keeps x v, priority) ∈ d.model.enabled → priority.isRequired = false) →
        d'.model.slots.value x = d.model.slots.value x) := by
  refine ⟨fun r r' request hfinite h ↦ ⟨?_, ?_⟩, fun d d' fixed h ↦ ⟨?_, ?_⟩, ?_,
    fun d d' request h hx ↦ ⟨?_, ?_⟩⟩
  · exact fun v priority hc hrequired hx ↦ Relaxation.keeps_of_ask hfinite h hc hrequired hx
  · exact fun hro hx ↦ Relaxation.value_of_ask h hx (.inl hro)
  · exact fun before v priority after henabled hrequired hagree ↦
      Dataflow.keeps_of_plans h henabled hrequired hagree
  · exact fun hro hx ↦ Dataflow.value_of_plans_of_readonly h hro hx
  · exact fun d v hx hnear ↦ Dataflow.suggest_of_near hx hnear
  · exact fun before v priority after henabled hrequired hexists hagree ↦
      DomainSearch.keeps_of_ask h henabled hrequired hexists hx hagree
  · exact fun hro hkeeps ↦ DomainSearch.value_of_ask_of_readonly h hro hx hkeeps

instance (u : Value) (x : Float) : Decidable (u.Agrees (.number x)) :=
  inferInstanceAs (Decidable (_ ∨ _))

/-- A sum of a variable that is to keep five, by the last two of three demands, and of a read-only one. -/
def total : Dataflow :=
  let (_, d) := Dataflow.declare {} (.number 1)
  let (_, d) := d.declare (.number 2)
  let (_, d) := d.declare (.number 3)
  let (_, d) := d.compile (.binary .eq (.binary .add (.var ⟨0⟩) (.var ⟨1⟩)) (.var ⟨2⟩))
  let (_, d) := d.keep ⟨0⟩ (.number 7)
  let (_, d) := d.keep ⟨0⟩ (.number 5)
  let (_, d) := d.keep ⟨0⟩ (.number 5.0000000001)
  let (_, model) := d.model.setEnabled ⟨0⟩ (some .required)
  let (_, model) := model.setEnabled ⟨1⟩ (some .weak)
  let (_, model) := model.setEnabled ⟨2⟩ (some .required)
  let (_, model) := model.setEnabled ⟨3⟩ (some .weak)
  { d with model := model.setReadonly ⟨1⟩ true }

/-- A variable with two values to choose from, one that is to keep two, and a read-only one, which is their
sum. -/
def chosen : DomainSearch :=
  let (_, d) := DomainSearch.declare { maxNodes := 100 } (.number 1)
  let (_, d) := d.declare (.number 1)
  let (_, d) := d.declare (.number 5)
  let (_, d) := d.compile (.inDomain (.var ⟨0⟩) [.number 1, .number 3])
  let (_, d) := d.compile (.binary .eq (.binary .add (.var ⟨0⟩) (.var ⟨1⟩)) (.var ⟨2⟩))
  let (_, d) := d.keep ⟨1⟩ (.number 2)
  let (_, model) := d.model.setEnabled ⟨0⟩ (some .required)
  let (_, model) := model.setEnabled ⟨1⟩ (some .required)
  let (_, model) := model.setEnabled ⟨2⟩ (some .required)
  { d with model := model.setReadonly ⟨2⟩ true }

theorem Relaxation.finite_balance : balance.Finite (some (⟨2⟩, .number 6.0000000001)) where
  values x hx := by
    obtain ⟨slot, hslot⟩ := Arena.contains_iff.1 hx
    obtain ⟨i⟩ := x
    have hlt : i < 3 := Arena.lt_next_of_get? hslot
    interval_cases i
    · exact ⟨6, by decide +kernel, by decide +kernel⟩
    · exact ⟨4, by decide +kernel, by decide +kernel⟩
    · exact ⟨6, by decide +kernel, by decide +kernel⟩
  demands x v priority hc := by
    have hstarts : ∀ e ∈ balance.model.enabled.filterMap start?, e.2.isFinite = true := by decide +kernel
    exact hstarts (x, v) (List.mem_filterMap.2 ⟨_, hc, rfl⟩)
  suggested x v heq := by
    cases heq
    exact ⟨_, rfl, by decide +kernel⟩
  tolerance := by decide +kernel

/-- Relaxation leaves the read-only variable at the four that it is to keep. The plan computes the sum from the
five that the first variable is to keep, and the search finds three for the first one. -/
theorem required_keeps_met :
    (∃ r' n, Relaxation.balance.ask (some (⟨2⟩, .number 6.0000000001)) = (.ok (), r') ∧
      r'.model.slots.value ⟨1⟩ = .number n ∧ (n - 4).abs ≤ 1e-9) ∧
    (∃ d', total.solve = (.ok (), d') ∧ (d'.model.slots.value ⟨0⟩).Agrees (.number 5) ∧
      d'.model.slots.value ⟨1⟩ = total.model.slots.value ⟨1⟩) ∧
    total.suggest ⟨2⟩ (.number 3.0000000001) = (.ok (), total) ∧
    ∃ d', chosen.ask none = (.ok (), d') ∧ (d'.model.slots.value ⟨1⟩).Agrees (.number 2) ∧
      d'.model.slots.value ⟨2⟩ = chosen.model.slots.value ⟨2⟩ := by
  obtain ⟨-, hkept, -, -⟩ := required_keeps ⟨0⟩
  obtain ⟨hrelaxed, hplanned, -, hsearched⟩ := required_keeps ⟨1⟩
  obtain ⟨-, -, hnear, hfound⟩ := required_keeps ⟨2⟩
  refine ⟨?_, ?_, hnear total _ (by decide +kernel) (by decide +kernel), ?_⟩
  · have hok : (Relaxation.balance.ask (some (⟨2⟩, .number 6.0000000001))).1 = .ok () :=
      Except.eq_ok_of_isOk (by decide +kernel)
    have hexists : Relaxation.balance.model.slots.contains ⟨1⟩ = true := by decide +kernel
    have hc : (.keeps ⟨1⟩ 4, .required) ∈ Relaxation.balance.model.enabled :=
      List.mem_of_getElem? (i := 2) rfl
    generalize hasked : Relaxation.balance.ask (some (⟨2⟩, .number 6.0000000001)) = outcome at hok ⊢
    obtain ⟨_, r'⟩ := outcome
    obtain rfl := hok
    obtain ⟨hkeeps, -⟩ := hrelaxed _ r' _ Relaxation.finite_balance hasked
    obtain ⟨n, hvalue, hle⟩ := hkeeps 4 .required hc rfl hexists
    exact ⟨r', n, rfl, hvalue, hle⟩
  · have hok : total.solve.1 = .ok () := Except.eq_ok_of_isOk (by decide +kernel)
    have hplans : total.Plans [] total.solve := .solve
    have henabled : total.model.enabled = total.model.enabled.take 2 ++ (.keeps ⟨0⟩ 5, .required) ::
        [(.keeps ⟨0⟩ 5.0000000001, .weak)] := rfl
    have hagree : (Value.number 5.0000000001).Agrees (.number 5) := by decide +kernel
    have hreadonly : total.model.slots.isReadonly ⟨1⟩ = true := by decide +kernel
    generalize total.solve = outcome at hok hplans ⊢
    obtain ⟨_, d'⟩ := outcome
    obtain rfl := hok
    obtain ⟨hkeeps, -⟩ := hkept _ _ _ hplans
    obtain ⟨-, hstays⟩ := hplanned _ _ _ hplans
    refine ⟨d', rfl, hkeeps _ 5 .required _ henabled rfl (.inr (.inr fun u priority hu ↦ ?_)),
      hstays hreadonly nofun⟩
    cases List.mem_singleton.1 hu
    exact hagree
  · have hok : (chosen.ask none).1 = .ok () := Except.eq_ok_of_isOk (by decide +kernel)
    have henabled : chosen.model.enabled
        = chosen.model.enabled.take 2 ++ [(.keeps ⟨1⟩ (.number 2), .required)] := rfl
    have hexists : chosen.model.slots.contains ⟨1⟩ = true := by decide +kernel
    have hreadonly : chosen.model.slots.isReadonly ⟨2⟩ = true := by decide +kernel
    have hfree : ∀ k ∈ chosen.keepers none, k.1 ≠ ⟨2⟩ := by decide +kernel
    generalize hasked : chosen.ask none = outcome at hok ⊢
    obtain ⟨_, d'⟩ := outcome
    obtain rfl := hok
    obtain ⟨hkeeps, -⟩ := hsearched chosen d' none hasked nofun
    obtain ⟨-, hstays⟩ := hfound chosen d' none hasked nofun
    refine ⟨d', rfl, hkeeps _ (.number 2) .required [] henabled rfl hexists nofun,
      hstays hreadonly fun u priority hu ↦ ?_⟩
    by_contra hrequired
    exact hfree (⟨2⟩, u)
      (DomainSearch.mem_keepers.2 ⟨nofun, priority, hu, Bool.not_eq_false _ ▸ hrequired⟩) rfl

/-! ### Demands that do not bind -/

/-- A variable that is to keep five, and by a weaker demand three. -/
def overruled : Dataflow :=
  let (_, d) := Dataflow.declare {} (.number 1)
  let (_, d) := d.keep ⟨0⟩ (.number 5)
  let (_, d) := d.keep ⟨0⟩ (.number 3)
  let (_, model) := d.model.setEnabled ⟨0⟩ (some .required)
  let (_, model) := model.setEnabled ⟨1⟩ (some .weak)
  { d with model }

/-- A read-only variable with one that is to keep five. -/
def overwritten : DomainSearch :=
  let (_, d) := DomainSearch.declare { maxNodes := 100 } (.number 1)
  let (_, d) := d.keep ⟨0⟩ (.number 5)
  let (_, model) := d.model.setEnabled ⟨0⟩ (some .required)
  { d with model := model.setReadonly ⟨0⟩ true }

/-- Calls that succeed and leave a required demand unmet, or move a read-only variable. A suggestion near the
value of a variable is adopted without a look at the demands. A plan sets the target of a weaker demand after
that of a required one. A search puts a value into a read-only variable, and does not look at the demands
about the variable that is suggested. -/
theorem exists_unkept :
    ((overruled.suggest ⟨0⟩ (.number 1)).1 = .ok () ∧
      ¬ ((overruled.suggest ⟨0⟩ (.number 1)).2.model.slots.value ⟨0⟩).Agrees (.number 5)) ∧
    (overruled.solve.1 = .ok () ∧ ¬ (overruled.solve.2.model.slots.value ⟨0⟩).Agrees (.number 5)) ∧
    (overwritten.solve.1 = .ok () ∧
      overwritten.solve.2.model.slots.value ⟨0⟩ ≠ overwritten.model.slots.value ⟨0⟩) ∧
    (overwritten.suggest ⟨0⟩ (.number 3)).1 = .ok () ∧
      ¬ ((overwritten.suggest ⟨0⟩ (.number 3)).2.model.slots.value ⟨0⟩).Agrees (.number 5) := by
  have hbefore : overwritten.model.slots.value ⟨0⟩ = .number 1 := by decide +kernel
  rw [hbefore]
  exact ⟨⟨Except.eq_ok_of_isOk (by decide +kernel), by decide +kernel⟩,
    ⟨Except.eq_ok_of_isOk (by decide +kernel), by decide +kernel⟩,
    ⟨Except.eq_ok_of_isOk (by decide +kernel), by decide +kernel⟩,
    Except.eq_ok_of_isOk (by decide +kernel), by decide +kernel⟩

end LiveConstraints

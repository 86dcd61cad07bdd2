import LiveConstraints.Proofs.Algorithms.Relaxing
import LiveConstraints.Proofs.Editing.Batches
import Mathlib.Algebra.Order.Group.Multiset
import Mathlib.Tactic.Abel
/-!
# What a plan comes to

The equations of a plan are done with one after another, each by a check or by computing an output. From
one stage of a plan to a later one `Plan.Carries` says which were done with in between and how: an output
is determined when it is computed and not before, so no two equations have the same one, and whatever is
no output keeps its value. A run ends with no equation left (`pending_of_passes`), so its equations are
split into checked ones and ones with an output (`Dataflow.resolves_of_plans`).

What may not be an output was determined from the start (`Dataflow.determined_of_foldlM_startOne`).
-/

namespace LiveConstraints.Dataflow

open Plan

variable {d d' : Dataflow} {plan plan' plan'' next : Plan} {form : LinearForm} {x : ExtVar}
  {fixed : List ExtVar} {s s' : Slots}

/-! ### Equations that are done with -/

/-- An equation that computed nothing is balanced up to the tolerance. -/
def Plan.Checks (plan : Plan) (form : LinearForm) : Prop :=
  (∀ x ∈ form.vars, x ∈ plan.determined) ∧ ¬ tolerance < (form.evaluate plan.slots.number).abs

/-- An equation that computed one of its variables, which holds what the equation leaves to it. -/
def Plan.Computes (plan : Plan) (form : LinearForm) (x : ExtVar) : Prop :=
  (∀ y ∈ form.vars, y ∈ plan.determined) ∧ x ∈ form.vars ∧
    plan.slots.value x = .number (form.remainder plan.slots.number x)

theorem Plan.Extends.number_eq (h : Extends plan plan') (hx : x ∈ plan.determined) :
    plan'.slots.number x = plan.slots.number x := by
  rw [Slots.number_eq, Slots.number_eq, numberOf, numberOf, h.final x hx]

theorem Plan.Checks.extends (h : plan.Checks form) (hext : Extends plan plan') : plan'.Checks form := by
  refine ⟨fun x hx ↦ hext.determined x (h.1 x hx), ?_⟩
  rw [LinearForm.evaluate_congr fun x hx ↦ hext.number_eq (h.1 x hx)]
  exact h.2

theorem Plan.Computes.extends (h : plan.Computes form x) (hext : Extends plan plan') :
    plan'.Computes form x := by
  obtain ⟨hdetermined, hx, hvalue⟩ := h
  refine ⟨fun y hy ↦ hext.determined y (hdetermined y hy), hx, ?_⟩
  rw [hext.final x (hdetermined x hx), hvalue,
    LinearForm.remainder_congr fun y hy _ ↦ hext.number_eq (hdetermined y hy)]

/-- What happened from one stage of a plan to a later one at which some equations were visited: of these
and the pending ones some were checked, some computed an output, and the others are pending. -/
structure Plan.Carries (plan plan' : Plan) (visited checked : List LinearForm)
    (solved : List (LinearForm × ExtVar)) : Prop where
  later : Extends plan plan'
  account : (plan'.pending : Multiset LinearForm) + (checked + solved.map Prod.fst)
    = plan.pending + visited
  checks : ∀ form ∈ checked, plan'.Checks form
  computes : ∀ e ∈ solved, plan'.Computes e.1 e.2
  /-- No output was determined before. -/
  undetermined : ∀ e ∈ solved, e.2 ∉ plan.determined
  nodup : (solved.map Prod.snd).Nodup
  /-- What is no output keeps its value. -/
  kept : ∀ x ∉ solved.map Prod.snd, plan'.slots.value x = plan.slots.value x

namespace Plan.Carries

variable {visited visited' checked checked' : List LinearForm}
  {solved solved' : List (LinearForm × ExtVar)}

theorem nothing (hext : Extends plan plan') (hvalue : plan'.slots.value = plan.slots.value)
    (hpending : plan'.pending = plan.pending ++ visited) : Carries plan plan' visited [] [] :=
  ⟨hext, by simp [hpending], nofun, nofun, nofun, .nil, fun x _ ↦ congrFun hvalue x⟩

theorem trans (h : Carries plan plan' visited checked solved)
    (h' : Carries plan' plan'' visited' checked' solved') :
    Carries plan plan'' (visited ++ visited') (checked ++ checked') (solved ++ solved') where
  later := h.later.trans h'.later
  account := by
    simp only [List.map_append, ← Multiset.coe_add]
    calc (plan''.pending : Multiset LinearForm) + ((checked + checked')
          + (solved.map Prod.fst + solved'.map Prod.fst))
        = (plan''.pending + (checked' + solved'.map Prod.fst)) + (checked + solved.map Prod.fst) := by
          abel
      _ = (plan'.pending + (checked + solved.map Prod.fst)) + visited' := by
          rw [h'.account]
          abel
      _ = plan.pending + (visited + visited') := by
          rw [h.account]
          abel
  checks form hform := by
    rcases List.mem_append.1 hform with hform | hform
    · exact (h.checks form hform).extends h'.later
    · exact h'.checks form hform
  computes e he := by
    rcases List.mem_append.1 he with he | he
    · exact (h.computes e he).extends h'.later
    · exact h'.computes e he
  undetermined e he := by
    rcases List.mem_append.1 he with he | he
    · exact h.undetermined e he
    · exact fun hdetermined ↦ h'.undetermined e he (h.later.determined _ hdetermined)
  nodup := by
    rw [List.map_append]
    refine h.nodup.append h'.nodup fun x hx hx' ↦ ?_
    -- an earlier output is determined, a later one is not
    obtain ⟨e, he, rfl⟩ := List.mem_map.1 hx
    obtain ⟨e', he', heq⟩ := List.mem_map.1 hx'
    obtain ⟨hdetermined, hvar, -⟩ := h.computes e he
    exact h'.undetermined e' he' (heq ▸ hdetermined _ hvar)
  kept x hx := by
    rw [List.map_append, List.mem_append, not_or] at hx
    exact (h'.kept x hx.2).trans (h.kept x hx.1)

end Plan.Carries

/-! ### The steps of a plan -/

/-- Visiting an equation checks it, computes its output, or keeps it pending. -/
theorem carries_of_visit (h : visit plan form = .ok plan') :
    ∃ checked solved, Carries plan plan' [form] checked solved := by
  have hlater := (visited_of_visit h).later
  unfold visit at h
  split at h
  · next hnone =>
    dsimp only at h
    split at h
    · cases h
    · next hresidual =>
      cases h
      refine ⟨[form], [], hlater, by simp, ?_, nofun, nofun, .nil, fun _ _ ↦ rfl⟩
      intro form' hform'
      obtain rfl := List.mem_singleton.1 hform'
      refine ⟨fun x hx ↦ ?_, hresidual⟩
      by_contra hopen
      have hx' : x ∈ plan.undetermined form' := mem_undetermined.2 ⟨hx, hopen⟩
      rw [hnone] at hx'
      cases hx'
  · next output hout =>
    obtain ⟨slots, hslots, h⟩ := Except.of_bind_ok h
    cases h
    have hopen := mem_undetermined.1 (hout ▸ List.mem_singleton_self output)
    have hsettled := settled_of_output hout hslots
    obtain ⟨hexists, rfl⟩ := Slots.of_assign?_ok hslots
    refine ⟨[], [(form, output)], hlater, by simp, nofun, ?_, ?_, List.nodup_singleton _, ?_⟩
    · intro e he
      obtain rfl := List.mem_singleton.1 he
      refine ⟨hsettled.determined, hopen.1, ?_⟩
      rw [slots_determine, Slots.value_assign_self hexists]
      -- the output does not occur in what it is computed from
      refine congrArg Value.number (LinearForm.remainder_congr fun y _ hy ↦ ?_)
      rw [Slots.number_eq, Slots.number_eq, numberOf, numberOf, Slots.value_assign_of_ne hy]
    · intro e he
      obtain rfl := List.mem_singleton.1 he
      exact hopen.2
    · intro x hx
      rw [slots_determine]
      exact Slots.value_assign_of_ne fun heq ↦ hx (heq ▸ List.mem_singleton_self _)
  · cases h
    exact ⟨[], [], .nothing hlater rfl rfl⟩

theorem carries_of_foldlM_visit {forms : List LinearForm} (h : forms.foldlM visit plan = .ok plan') :
    ∃ checked solved, Carries plan plan' forms checked solved := by
  induction forms generalizing plan with
  | nil =>
    cases h
    exact ⟨[], [], .nothing (.refl _) rfl (List.append_nil _).symm⟩
  | cons form forms ih =>
    rw [List.foldlM_cons] at h
    obtain ⟨plan₁, h₁, h⟩ := Except.of_bind_ok h
    obtain ⟨checked₁, solved₁, hcarries₁⟩ := carries_of_visit h₁
    obtain ⟨checked, solved, hcarries⟩ := ih h
    exact ⟨_, _, hcarries₁.trans hcarries⟩

theorem slots_commit (plan : Plan) : (commit plan).slots = plan.slots := by
  have hfold : ∀ (output : Option ExtVar) (xs : List ExtVar) (plan : Plan),
      (xs.foldl (fun plan x ↦ if some x == output then plan else plan.determine x) plan).slots
        = plan.slots := by
    intro output xs
    induction xs with
    | nil => exact fun _ ↦ rfl
    | cons x xs ih =>
      intro plan
      rw [List.foldl_cons]
      split
      · exact ih plan
      · exact (ih _).trans (slots_determine plan x)
  unfold commit
  split
  · rfl
  · exact hfold _ _ _

/-- Any number of passes. Giving up variables in between moves nothing. -/
theorem carries_of_passes {n : Nat} (h : passes n plan = .ok plan') :
    ∃ checked solved, Carries plan plan' [] checked solved := by
  induction n generalizing plan with
  | zero =>
    cases h
    exact ⟨[], [], .nothing (.refl _) rfl (List.append_nil _).symm⟩
  | succ n ih =>
    unfold passes at h
    split at h
    · cases h
      exact ⟨[], [], .nothing (.refl _) rfl (List.append_nil _).symm⟩
    · obtain ⟨next, hnext, h⟩ := Except.of_bind_ok h
      obtain ⟨checked₁, solved₁, hvisits⟩ := carries_of_foldlM_visit hnext
      have hpass : Carries plan next [] checked₁ solved₁ :=
        { hvisits with
          later := ⟨hvisits.later.slots, hvisits.later.determined, hvisits.later.final⟩
          account := hvisits.account.trans (by simp) }
      have hcommit : Carries next
          (if next.pending.length = plan.pending.length then commit next else next) [] [] [] := by
        obtain ⟨hext, hpending⟩ := commit_ok next
        split
        · exact .nothing hext (congrArg Slots.value (slots_commit next)) (by simp [hpending])
        · exact .nothing (.refl _) rfl (List.append_nil _).symm
      obtain ⟨checked, solved, hcarries⟩ := ih h
      exact ⟨_, _, (hpass.trans hcommit).trans hcarries⟩

/-! ### Before the first pass -/

variable {keepers : List (ExtVar × Float × Bool)}

/-- The variables that a required `keeps` clause sets are determined, unless they may not be set. -/
theorem determined_of_foldlM_startOne (h : keepers.foldlM (startOne fixed) plan = .ok plan') :
    (∀ x ∈ plan.determined, x ∈ plan'.determined) ∧ ∀ x v, (x, v, true) ∈ keepers →
      x ∈ fixed ∨ plan'.slots.isReadonly x = true ∨ x ∈ plan'.determined := by
  induction keepers generalizing plan with
  | nil =>
    cases h
    exact ⟨fun _ hx ↦ hx, nofun⟩
  | cons keeper keepers ih =>
    have hflags := (foldlM_startOne h).1
    rw [List.foldlM_cons] at h
    obtain ⟨plan₁, h₁, h⟩ := Except.of_bind_ok h
    obtain ⟨hlater, hkeepers⟩ := ih h
    obtain ⟨y, u, required⟩ := keeper
    rcases startOne_cases h₁ with ⟨hheld, rfl, -⟩ | ⟨-, -, -, -, hdetermined⟩
    · refine ⟨hlater, fun x v hmem ↦ ?_⟩
      rcases List.mem_cons.1 hmem with heq | hmem
      · cases heq
        exact hheld.imp_right fun hro ↦ .inl ((hflags.isReadonly _).trans hro)
      · exact hkeepers x v hmem
    · refine ⟨fun x hx ↦ hlater x ((hdetermined x).2 (.inl hx)), fun x v hmem ↦ ?_⟩
      rcases List.mem_cons.1 hmem with heq | hmem
      · cases heq
        exact .inr (.inr (hlater _ ((hdetermined _).2 (.inr ⟨rfl, rfl⟩))))
      · exact hkeepers x v hmem

/-- No `keeps` clause sets what is read-only or no target of one. -/
theorem value_of_foldlM_startOne (hx : plan.slots.isReadonly x = true ∨
      ∀ v required, (x, v, required) ∉ keepers)
    (h : keepers.foldlM (startOne fixed) plan = .ok plan') :
    plan'.slots.value x = plan.slots.value x := by
  induction keepers generalizing plan with
  | nil =>
    cases h
    rfl
  | cons keeper keepers ih =>
    rw [List.foldlM_cons] at h
    obtain ⟨plan₁, h₁, h⟩ := Except.of_bind_ok h
    have hflags := (startOne_ok h₁).1
    have hx₁ : plan₁.slots.isReadonly x = true ∨ ∀ v required, (x, v, required) ∉ keepers := by
      refine hx.imp (hflags.isReadonly x).trans fun hnone v required hmem ↦ ?_
      exact hnone v required (List.mem_cons_of_mem _ hmem)
    refine (ih hx₁ h).trans ?_
    obtain ⟨y, u, required⟩ := keeper
    rcases startOne_cases h₁ with ⟨-, rfl, -⟩ | ⟨hfree, -, hslots, -, -⟩
    · rfl
    · have hne : x ≠ y := by
        rintro rfl
        rcases hx with hro | hnone
        · exact hfree (.inr hro)
        · exact hnone u required List.mem_cons_self
      rw [hslots]
      exact Slots.value_assign_of_ne hne

/-- The read-only variables of the equations are determined before the first pass. -/
theorem mem_determined_determineReadonly : x ∈ (determineReadonly plan).determined ↔
    x ∈ plan.determined ∨ x ∈ plan.pending.flatMap LinearForm.vars ∧ plan.slots.isReadonly x = true := by
  have hfold : ∀ (xs : List ExtVar) (plan : Plan),
      x ∈ (xs.foldl (fun plan x ↦ if plan.slots.isReadonly x then plan.determine x else plan)
          plan).determined
        ↔ x ∈ plan.determined ∨ x ∈ xs ∧ plan.slots.isReadonly x = true := by
    intro xs
    induction xs with
    | nil => simp
    | cons y xs ih =>
      intro plan
      rw [List.foldl_cons, ih, List.mem_cons]
      split
      · next hro =>
        rw [mem_determined_determine, slots_determine]
        constructor
        · rintro ((hx | rfl) | ⟨hx, hro'⟩)
          · exact .inl hx
          · exact .inr ⟨.inl rfl, hro⟩
          · exact .inr ⟨.inr hx, hro'⟩
        · rintro (hx | ⟨rfl | hx, hro'⟩)
          · exact .inl (.inl hx)
          · exact .inl (.inr rfl)
          · exact .inr ⟨hx, hro'⟩
      · next hfree =>
        refine or_congr_right (and_congr_left fun hro ↦ ⟨.inr, fun hx ↦ hx.resolve_left ?_⟩)
        rintro rfl
        exact hfree hro
  exact hfold _ _

/-! ### Runs -/

/-- How a run that held some variables fixed has satisfied the enabled equations: some it checked, and of
each other one it computed one variable, its output. -/
structure Resolves (d : Dataflow) (fixed : List ExtVar) (before after : Slots)
    (checked : List LinearForm) (solved : List (LinearForm × ExtVar)) : Prop where
  /-- Every enabled equation is checked or has an output. -/
  split : (checked ++ solved.map Prod.fst).Perm d.equations
  /-- No two equations have the same output. -/
  distinct : (solved.map Prod.snd).Nodup
  /-- An output occurs in its equation. -/
  occurs : ∀ e ∈ solved, e.2 ∈ e.1.vars
  /-- An output was neither fixed nor read-only, nor is it the target of a required `keeps` clause. -/
  free : ∀ e ∈ solved, e.2 ∉ fixed ∧ before.isReadonly e.2 = false ∧ ∀ v, (e.2, v, true) ∉ d.keepers
  /-- An output holds what the others leave to it, exactly. -/
  computed : ∀ e ∈ solved, ∃ c, e.1.coefficients.find? e.2 = some c ∧ after.value e.2 = .number
    (Float.neg (e.1.evaluate fun y ↦ if y == e.2 then 0.0 else after.number y) / c)
  /-- A checked equation has a small residual. -/
  balanced : ∀ form ∈ checked, ¬ tolerance < (form.evaluate after.number).abs
  /-- Nothing else moved but the targets of `keeps` clauses. -/
  kept : ∀ x ∉ solved.map Prod.snd, x ∉ fixed → (∀ v required, (x, v, required) ∉ d.keepers) →
    after.value x = before.value x

/-- A run splits the equations into checked ones and ones with an output. -/
theorem resolves_of_propagate (hforms : ∀ form ∈ d.equations, form.Ordered)
    (h : d.propagate fixed s = .ok s') : ∃ checked solved, d.Resolves fixed s s' checked solved := by
  obtain ⟨started, hstarted, h⟩ := Except.of_bind_ok h
  obtain ⟨final, hfinal, h⟩ := Except.of_bind_ok h
  cases h
  obtain ⟨hflags, hpending⟩ := foldlM_startOne hstarted
  obtain ⟨hslots, hpending'⟩ := determineReadonly_ok started
  have hequations : (determineReadonly started).pending = d.equations := hpending'.trans hpending
  have hnone : final.pending = [] := by
    refine pending_of_passes ?_ (.inl (Nat.le_of_eq ?_)) hfinal
    · rwa [hequations]
    · rw [hequations]
  obtain ⟨checked, solved, hcarries⟩ := carries_of_passes hfinal
  have hsplit : (checked ++ solved.map Prod.fst).Perm d.equations := by
    refine Multiset.coe_eq_coe.1 ?_
    rw [← Multiset.coe_add, ← hequations]
    simpa [hnone] using hcarries.account
  obtain ⟨hfixed, hrequired⟩ := determined_of_foldlM_startOne hstarted
  refine ⟨checked, solved, hsplit, hcarries.nodup, fun e he ↦ (hcarries.computes e he).2.1,
    fun e he ↦ ?_, fun e he ↦ ?_, fun form hform ↦ (hcarries.checks form hform).2,
    fun x hx hfree hnokeeper ↦ ?_⟩
  · have hopen := hcarries.undetermined e he
    rw [mem_determined_determineReadonly, not_or, hpending] at hopen
    have hvar : e.2 ∈ d.equations.flatMap LinearForm.vars := by
      refine List.mem_flatMap.2 ⟨e.1, hsplit.subset ?_, (hcarries.computes e he).2.1⟩
      exact List.mem_append_right _ (List.mem_map_of_mem he)
    have hwritable : started.slots.isReadonly e.2 ≠ true := fun hro ↦ hopen.2 ⟨hvar, hro⟩
    have hnotfixed : e.2 ∉ fixed := fun hmem ↦ hopen.1 (hfixed _ hmem)
    refine ⟨hnotfixed, ?_, fun v hmem ↦ ?_⟩
    · exact (hflags.isReadonly e.2).symm.trans (Bool.eq_false_iff.2 hwritable)
    · rcases hrequired _ v hmem with hmem | hro | hdetermined
      · exact hnotfixed hmem
      · exact hwritable hro
      · exact hopen.1 hdetermined
  · obtain ⟨-, hvar, hvalue⟩ := hcarries.computes e he
    obtain ⟨c, hc⟩ := Option.isSome_iff_exists.1 (SortedMap.find?_isSome_of_mem_keys hvar)
    refine ⟨c, hc, ?_⟩
    rw [hvalue, LinearForm.remainder, hc, Option.getD_some]
  · rw [hcarries.kept x hx, hslots, value_of_foldlM_startOne (.inr hnokeeper) hstarted]

/-! ### Calls -/

/-- A call that runs the planner, with the variables that it holds fixed. A value that a variable holds
already is adopted without a plan. -/
inductive Plans (d : Dataflow) : List ExtVar → Except SolverError Unit × Dataflow → Prop where
  /-- Solving holds nothing. -/
  | solve : d.Plans [] d.solve
  /-- A suggestion holds its variable. -/
  | suggest (x : ExtVar) (v : Value) (hfar : (d.model.slots.value x).near v = false) :
      d.Plans [x] (d.suggest x v)
  /-- A batch holds the variables of the open edit. -/
  | resolveBatch (solver : String) (values : List Value) {xs : List ExtVar}
      (hopen : d.editing = some xs) : d.Plans xs (d.resolveBatch solver values)

/-- A call that succeeds has run from variables of which only the fixed ones were set. -/
theorem of_plans_ok (h : d.Plans fixed (.ok (), d')) : ∃ s, d.propagate fixed s = .ok d'.model.slots ∧
    d.model.slots.Reassigned s ∧ ∀ x ∉ fixed, s.value x = d.model.slots.value x := by
  have hsettle : ∀ {d₁ : Dataflow} {s : Slots}, d₁.runFrom fixed s = (.ok (), d') →
      d₁.propagate fixed s = .ok d'.model.slots := by
    intro d₁ s hrun
    unfold runFrom at hrun
    cases hs : d₁.propagate fixed s with
    | error e =>
      rw [hs] at hrun
      cases hrun
    | ok s₁ =>
      rw [hs] at hrun
      cases hrun
      rfl
  generalize houtcome : ((.ok (), d') : Except SolverError Unit × Dataflow) = outcome at h
  cases h with
  | solve =>
    have hrun := hsettle houtcome.symm
    exact ⟨_, hrun, .refl _, fun _ _ ↦ rfl⟩
  | suggest x v hfar =>
    unfold suggest at houtcome
    split at houtcome
    · cases houtcome
    · split at houtcome
      · cases houtcome
      · next slot hslot =>
        rw [Slots.value, hslot, Option.map_some, Option.getD_some] at hfar
        rw [if_neg (by rw [hfar]; exact Bool.false_ne_true)] at houtcome
        have hrun := hsettle houtcome.symm
        exact ⟨_, hrun, .assign .., fun y hy ↦
          Slots.value_assign_of_ne fun heq ↦ hy (heq ▸ List.mem_singleton_self _)⟩
  | resolveBatch solver values hopen =>
    unfold resolveBatch at houtcome
    rw [hopen] at houtcome
    dsimp only at houtcome
    split at houtcome
    · cases houtcome
    · split at houtcome
      · cases houtcome
      · next s hassign =>
        have hrun := hsettle houtcome.symm
        refine ⟨s, hrun, Solver.reassigned_of_assignBatch hassign, fun x hx ↦ ?_⟩
        refine value_of_assignBatch_of_notMem hassign fun hmem ↦ hx ?_
        obtain ⟨e, he, rfl⟩ := List.mem_map.1 hmem
        exact (List.of_mem_zip he).1

/-- **Plans are sound.** A call that ran the planner and succeeded has split the enabled equations into
checked ones, each with a small residual at the final values, and ones with an output of their own that
holds exactly what the equation leaves to it. -/
theorem resolves_of_plans (hforms : ∀ form ∈ d.equations, form.Ordered)
    (h : d.Plans fixed (.ok (), d')) :
    ∃ checked solved, d.Resolves fixed d.model.slots d'.model.slots checked solved := by
  obtain ⟨s, hrun, hflags, hvalue⟩ := of_plans_ok h
  obtain ⟨checked, solved, hresolves⟩ := resolves_of_propagate hforms hrun
  refine ⟨checked, solved, { hresolves with free := fun e he ↦ ?_, kept := fun x hx hfixed hkeepers ↦ ?_ }⟩
  · rw [← hflags.isReadonly]
    exact hresolves.free e he
  · exact (hresolves.kept x hx hfixed hkeepers).trans (hvalue x hfixed)

instance (form : LinearForm) : Decidable form.Ordered :=
  inferInstanceAs (Decidable (form.coefficients.entries.Pairwise fun a b ↦ a.1 < b.1))

/-- Two sums that share a variable, and an equation that follows from them. -/
def sums : Dataflow :=
  let sum (x y : ExtVar) : Term := .binary .add (.var x) (.var y)
  let (_, d) := Dataflow.declare {} (.number 1)
  let (_, d) := d.declare (.number 2)
  let (_, d) := d.declare (.number 3)
  let (_, d) := d.declare (.number 5)
  let (_, d) := d.compile (.binary .eq (sum ⟨0⟩ ⟨1⟩) (.var ⟨2⟩))
  let (_, d) := d.compile (.binary .eq (sum ⟨1⟩ ⟨2⟩) (.var ⟨3⟩))
  let (_, d) := d.compile (.binary .eq (.binary .sub (.var ⟨3⟩) (.var ⟨0⟩)) (sum ⟨1⟩ ⟨1⟩))
  let (_, model) := d.model.setEnabled ⟨0⟩ (some .required)
  let (_, model) := model.setEnabled ⟨1⟩ (some .required)
  let (_, model) := model.setEnabled ⟨2⟩ (some .required)
  { d with model := (model.setStay ⟨1⟩ .strong).2 }

/-- When the first variable is suggested the second one keeps its value, and two equations compute the
others. -/
theorem resolves_of_plans_sums : ∃ d' checked solved, sums.suggest ⟨0⟩ (.number 7) = (.ok (), d') ∧
    sums.Resolves [⟨0⟩] sums.model.slots d'.model.slots checked solved ∧
    d'.model.slots.value ⟨1⟩ = .number 2 ∧ d'.model.slots.value ⟨2⟩ = .number 9 := by
  have hok : (sums.suggest ⟨0⟩ (.number 7)).1 = .ok () := Except.eq_ok_of_isOk (by decide +kernel)
  have hplans : sums.Plans [⟨0⟩] (sums.suggest ⟨0⟩ (.number 7)) := .suggest _ _ (by decide +kernel)
  have hkept : (sums.suggest ⟨0⟩ (.number 7)).2.model.slots.value ⟨1⟩ = .number 2 := by decide +kernel
  have hmoved : (sums.suggest ⟨0⟩ (.number 7)).2.model.slots.value ⟨2⟩ = .number 9 := by decide +kernel
  generalize sums.suggest ⟨0⟩ (.number 7) = outcome at hok hplans hkept hmoved
  obtain ⟨_, d'⟩ := outcome
  obtain rfl := hok
  obtain ⟨checked, solved, hresolves⟩ := resolves_of_plans (by decide +kernel) hplans
  exact ⟨d', checked, solved, rfl, hresolves, hkept, hmoved⟩

end LiveConstraints.Dataflow

import LiveConstraints.Proofs.Demand
import Mathlib.Data.List.Nodup
/-!
# The dataflow planner is sound

Once a variable is determined no later step of the plan assigns it (`Plan.Extends`). An equation
leaves the pending list either checked or with its output computed, and all its variables are
determined from then on, so it stays balanced to the end (`Plan.Settled`).

A run is useful only if no equation is still pending when it ends. A pass either shortens the
pending list or leaves it as it is, and after `commit` its first equation has at most one
undetermined variable (`Plan.Eager`), so that the next pass shortens it. Two passes for each equation
are enough (`pending_of_passes`). This rests on every variable having one coefficient: of a variable
that occurred twice, one occurrence would stay undetermined for ever.
-/

namespace LiveConstraints.Dataflow

namespace Plan

variable {plan plan' plan'' : Plan} {form : LinearForm} {x : ExtVar}

/-- A later stage of a plan: determined variables stay determined and keep their values. -/
structure Extends (plan plan' : Plan) : Prop where
  /-- Only values were touched. -/
  slots : plan.slots.Reassigned plan'.slots
  /-- What was determined still is. -/
  determined : ∀ x ∈ plan.determined, x ∈ plan'.determined
  /-- Its value is final. -/
  final : ∀ x ∈ plan.determined, plan'.slots.value x = plan.slots.value x

theorem Extends.refl (plan : Plan) : Extends plan plan := ⟨.refl _, fun _ h ↦ h, fun _ _ ↦ rfl⟩

theorem Extends.trans (h : Extends plan plan') (h' : Extends plan' plan'') :
    Extends plan plan'' where
  slots := h.slots.trans h'.slots
  determined x hx := h'.determined x (h.determined x hx)
  final x hx := (h'.final x (h.determined x hx)).trans (h.final x hx)

/-- An equation that is done with: its variables are determined and it is balanced. -/
structure Settled (plan : Plan) (form : LinearForm) : Prop where
  /-- No variable of it changes any more. -/
  determined : ∀ x ∈ form.vars, x ∈ plan.determined
  /-- It is balanced. -/
  balanced : form.Balanced plan.slots.value

theorem Settled.extends (h : Settled plan form) (hext : Extends plan plan') :
    Settled plan' form where
  determined x hx := hext.determined x (h.determined x hx)
  balanced := h.balanced.congr fun x hx ↦ (hext.final x (h.determined x hx)).symm

theorem mem_undetermined : x ∈ plan.undetermined form ↔ x ∈ form.vars ∧ x ∉ plan.determined := by
  simp [undetermined]

@[simp]
theorem slots_determine (plan : Plan) (x : ExtVar) : (plan.determine x).slots = plan.slots := by
  unfold determine
  split <;> rfl

@[simp]
theorem pending_determine (plan : Plan) (x : ExtVar) :
    (plan.determine x).pending = plan.pending := by
  unfold determine
  split <;> rfl

theorem mem_determined_determine {y : ExtVar} :
    y ∈ (plan.determine x).determined ↔ y ∈ plan.determined ∨ y = x := by
  unfold determine
  split
  · next h =>
    have hx : x ∈ plan.determined := by simpa using h
    exact ⟨.inl, fun hy ↦ hy.elim id fun hy ↦ hy ▸ hx⟩
  · simp

theorem extends_determine (plan : Plan) (x : ExtVar) : Extends plan (plan.determine x) where
  slots := by
    rw [slots_determine]
    exact .refl _
  determined _ hy := mem_determined_determine.2 (.inl hy)
  final _ _ := by rw [slots_determine]

/-- Assigning a variable that is not determined yet touches nothing final. -/
theorem extends_assign {v : Value} (h : x ∉ plan.determined) :
    Extends plan { plan with slots := plan.slots.assign x v } where
  slots := .assign ..
  determined _ hy := hy
  final _ hy := Slots.value_assign_of_ne fun heq ↦ h (heq ▸ hy)

end Plan

open Plan

variable {plan plan' next : Plan} {form : LinearForm}

/-! ### One equation -/

/-- What visiting an equation does: the plan goes on, and the equation stays pending or is done
with. -/
structure Visited (plan plan' : Plan) (form : LinearForm) : Prop where
  /-- Nothing final is touched. -/
  later : Extends plan plan'
  /-- The equation is the only one that may become pending. -/
  pending : plan'.pending = plan.pending ∧ Settled plan' form ∨
    plan'.pending = plan.pending ++ [form] ∧ 1 < (plan.undetermined form).length

theorem settled_of_output {output : ExtVar} {slots : Slots}
    (hout : plan.undetermined form = [output])
    (h : plan.slots.assign? output (.number (solveFor plan.slots form output)) = .ok slots) :
    Settled ({ plan with slots }.determine output) form := by
  obtain ⟨hexists, rfl⟩ := Slots.of_assign?_ok h
  have hmem := mem_undetermined.1 (hout ▸ List.mem_singleton_self output)
  refine ⟨fun x hx ↦ mem_determined_determine.2 ?_, .inr ⟨output, hmem.1, ?_⟩⟩
  · by_cases hdet : x ∈ plan.determined
    · exact .inl hdet
    · have hx' : x ∈ plan.undetermined form := mem_undetermined.2 ⟨hx, hdet⟩
      rw [hout, List.mem_singleton] at hx'
      exact .inr hx'
  · rw [slots_determine, Slots.value_assign_self hexists]
    -- the output does not occur in what it is computed from
    have hsame : ∀ y ∈ form.vars, y ≠ output → plan.slots.number y
        = numberOf (plan.slots.assign output (.number (solveFor plan.slots form output))).value y :=
      fun y _ hy ↦ by
        rw [Slots.number_eq, numberOf, numberOf, Slots.value_assign_of_ne hy]
    rw [← LinearForm.remainder_congr hsame]
    rfl

theorem visited_of_visit (h : visit plan form = .ok plan') : Visited plan plan' form := by
  unfold visit at h
  split at h
  · next hnone =>
    dsimp only at h
    split at h
    · cases h
    · next hres =>
      cases h
      refine ⟨.refl _, .inl ⟨rfl, fun x hx ↦ ?_, .inl ?_⟩⟩
      · by_contra hdet
        have hx' : x ∈ plan.undetermined form := mem_undetermined.2 ⟨hx, hdet⟩
        rw [hnone] at hx'
        exact absurd hx' (by simp)
      · rwa [← Slots.number_eq]
  · next output hout =>
    obtain ⟨slots, hslots, h⟩ := Except.of_bind_ok h
    cases h
    have hmem := mem_undetermined.1 (hout ▸ List.mem_singleton_self output)
    refine ⟨?_, .inl ⟨?_, settled_of_output hout hslots⟩⟩
    · obtain ⟨-, rfl⟩ := Slots.of_assign?_ok hslots
      exact (extends_assign hmem.2).trans (extends_determine ..)
    · rw [pending_determine]
  · next hnil hone =>
    cases h
    refine ⟨⟨.refl _, fun _ h ↦ h, fun _ _ ↦ rfl⟩, .inr ⟨rfl, ?_⟩⟩
    match hlist : plan.undetermined form with
    | [] => exact absurd hlist hnil
    | [output] => exact absurd hlist (hone output)
    | _ :: _ :: _ => simp

/-! ### One pass -/

/-- Visiting equations one after another: each of them is done with or pending in the end, nothing
else becomes pending, and none of those that were done with is lost. -/
theorem foldlM_visit {forms : List LinearForm} (h : forms.foldlM visit plan = .ok plan') :
    Extends plan plan' ∧ (∀ form ∈ forms, form ∈ plan'.pending ∨ Settled plan' form) ∧
      ∃ left, left.Sublist forms ∧ plan'.pending = plan.pending ++ left := by
  induction forms generalizing plan with
  | nil =>
    cases h
    exact ⟨.refl _, fun _ h ↦ absurd h (by simp), [], .slnil, by simp⟩
  | cons form forms ih =>
    rw [List.foldlM_cons] at h
    obtain ⟨plan₁, h₁, h⟩ := Except.of_bind_ok h
    obtain ⟨hlater, hdone, left, hleft, hpending⟩ := ih h
    have hvisited := visited_of_visit h₁
    refine ⟨hvisited.later.trans hlater, fun form' hform' ↦ ?_, ?_⟩
    · rcases List.mem_cons.1 hform' with rfl | hform'
      · rcases hvisited.pending with ⟨-, hsettled⟩ | ⟨hkept, -⟩
        · exact .inr (hsettled.extends hlater)
        · refine .inl ?_
          rw [hpending, hkept]
          simp
      · exact hdone form' hform'
    · rcases hvisited.pending with ⟨hsame, -⟩ | ⟨hkept, -⟩
      · exact ⟨left, hleft.cons _, by rw [hpending, hsame]⟩
      · exact ⟨form :: left, hleft.cons_cons _, by rw [hpending, hkept]; simp⟩

/-- A pass: every pending equation is still pending or done with. -/
theorem pass_ok (h : pass plan = .ok next) :
    Extends plan next ∧ (∀ form ∈ plan.pending, form ∈ next.pending ∨ Settled next form) ∧
      next.pending.Sublist plan.pending := by
  obtain ⟨hlater, hdone, left, hleft, hpending⟩ := foldlM_visit h
  refine ⟨⟨hlater.slots, hlater.determined, hlater.final⟩, hdone, ?_⟩
  rw [hpending]
  exact hleft

/-! ### Getting on -/

/-- The first pending equation is checked or computed by the next pass. -/
def Plan.Eager (plan : Plan) : Prop :=
  ∀ form ∈ plan.pending.head?, (plan.undetermined form).length ≤ 1

/-- A pass over an eager plan shortens the pending list. -/
theorem length_lt_of_pass (heager : plan.Eager) (hpending : plan.pending ≠ [])
    (h : pass plan = .ok next) : next.pending.length < plan.pending.length := by
  obtain ⟨form, forms, hforms⟩ := List.exists_cons_of_ne_nil hpending
  have hone : (plan.undetermined form).length ≤ 1 := heager form (by rw [hforms]; rfl)
  rw [pass, hforms, List.foldlM_cons] at h
  obtain ⟨plan₁, h₁, h⟩ := Except.of_bind_ok h
  obtain ⟨-, -, left, hleft, hnext⟩ := foldlM_visit h
  rcases (visited_of_visit h₁).pending with ⟨hsame, -⟩ | ⟨-, hmany⟩
  · rw [hnext, hsame, hforms, List.nil_append, List.length_cons]
    exact Nat.lt_succ_of_le hleft.length_le
  · -- an equation with two undetermined variables is not the first one of an eager plan
    have hlt : 1 < (plan.undetermined form).length := hmany
    omega

theorem foldl_determine (output : Option ExtVar) (xs : List ExtVar) (plan : Plan) :
    let plan' := xs.foldl (fun plan x ↦ if some x == output then plan else plan.determine x) plan
    Extends plan plan' ∧ plan'.pending = plan.pending ∧
      ∀ x ∈ xs, some x = output ∨ x ∈ plan'.determined := by
  induction xs generalizing plan with
  | nil => exact ⟨.refl _, rfl, fun _ h ↦ absurd h (by simp)⟩
  | cons x xs ih =>
    rw [List.foldl_cons]
    split
    · next hout =>
      obtain ⟨hlater, hpending, hall⟩ := ih plan
      refine ⟨hlater, hpending, fun y hy ↦ ?_⟩
      rcases List.mem_cons.1 hy with rfl | hy
      · exact .inl (by simpa using hout)
      · exact hall y hy
    · obtain ⟨hlater, hpending, hall⟩ := ih (plan.determine x)
      refine ⟨(extends_determine ..).trans hlater, by rw [hpending, pending_determine],
        fun y hy ↦ ?_⟩
      rcases List.mem_cons.1 hy with rfl | hy
      · exact .inr (hlater.determined y (mem_determined_determine.2 (.inr rfl)))
      · exact hall y hy

theorem commit_ok (plan : Plan) : Extends plan (commit plan) ∧
    (commit plan).pending = plan.pending := by
  unfold commit
  split
  · exact ⟨.refl _, rfl⟩
  · exact ⟨(foldl_determine ..).1, (foldl_determine ..).2.1⟩

/-- After giving up all but one of its variables the first pending equation is next. -/
theorem eager_commit (hforms : ∀ form ∈ plan.pending, form.Ordered) : (commit plan).Eager := by
  intro form hform
  rw [(commit_ok plan).2] at hform
  match hpending : plan.pending with
  | [] => rw [hpending] at hform; cases hform
  | first :: rest =>
    rw [hpending] at hform
    obtain rfl : first = form := by simpa using hform
    have hcommit : ∀ x ∈ plan.undetermined first,
        some x = chooseOutput plan.slots (plan.undetermined first)
          ∨ x ∈ (commit plan).determined := by
      unfold commit
      rw [hpending]
      exact (foldl_determine ..).2.2
    have hnodup : ((commit plan).undetermined first).Nodup :=
      (hforms first (by rw [hpending]; exact List.mem_cons_self)).nodup_vars.filter _
    -- whatever is still undetermined is the output
    have hout : ∀ x ∈ (commit plan).undetermined first,
        some x = chooseOutput plan.slots (plan.undetermined first) := by
      intro x hx
      obtain ⟨hvar, hdet⟩ := mem_undetermined.1 hx
      have hbefore : x ∈ plan.undetermined first :=
        mem_undetermined.2 ⟨hvar, fun h ↦ hdet ((commit_ok plan).1.determined x h)⟩
      exact (hcommit x hbefore).resolve_right hdet
    match hlist : (commit plan).undetermined first with
    | [] => simp
    | [x] => simp
    | x :: y :: _ =>
      rw [hlist] at hout hnodup
      have hxy : some x = some y :=
        (hout x (by simp)).trans (hout y (by simp)).symm
      simp [Option.some.inj hxy] at hnodup

/-! ### All passes -/

/-- The plan after a pass, which gives up variables if the pass got nowhere. -/
def Plan.resumed (plan next : Plan) : Plan :=
  if next.pending.length = plan.pending.length then commit next else next

theorem resumed_ok (plan next : Plan) :
    Extends next (plan.resumed next) ∧ (plan.resumed next).pending = next.pending := by
  unfold resumed
  split
  · exact commit_ok next
  · exact ⟨.refl _, rfl⟩

/-- A pass that was allowed leaves enough passes for the plan after it. -/
theorem allowed_of_pass {n : Nat} (hforms : ∀ form ∈ plan.pending, form.Ordered)
    (hne : plan.pending ≠ [])
    (hn : 2 * plan.pending.length ≤ n + 1 ∨ plan.Eager ∧ 2 * plan.pending.length ≤ n + 2)
    (h : pass plan = .ok next) :
    2 * (plan.resumed next).pending.length ≤ n ∨
      (plan.resumed next).Eager ∧ 2 * (plan.resumed next).pending.length ≤ n + 1 := by
  obtain ⟨-, -, hsub⟩ := pass_ok h
  have hle := hsub.length_le
  rw [(resumed_ok plan next).2]
  by_cases hlen : next.pending.length = plan.pending.length
  · -- the pass got nowhere, so the plan was not eager; now it is
    have hlazy : ¬ plan.Eager := fun heager ↦
      absurd (length_lt_of_pass heager hne h) (by omega)
    have heager : (plan.resumed next).Eager := by
      rw [resumed, if_pos hlen]
      exact eager_commit fun form hform ↦ hforms form (hsub.subset hform)
    rcases hn with hn | ⟨heager', -⟩
    · exact .inr ⟨heager, by omega⟩
    · exact absurd heager' hlazy
  · refine .inl ?_
    rcases hn with hn | ⟨-, hn⟩ <;> omega

/-- **Two passes for each equation are enough**: no equation is pending after them. A plan whose
first equation is next needs one pass less. -/
theorem pending_of_passes {n : Nat} (hforms : ∀ form ∈ plan.pending, form.Ordered)
    (hn : 2 * plan.pending.length ≤ n ∨ plan.Eager ∧ 2 * plan.pending.length ≤ n + 1)
    (h : passes n plan = .ok plan') : plan'.pending = [] := by
  induction n generalizing plan with
  | zero =>
    cases h
    exact List.eq_nil_of_length_eq_zero (by omega)
  | succ n ih =>
    unfold passes at h
    split at h
    · next hempty =>
      cases h
      exact List.isEmpty_iff.1 hempty
    · next hempty =>
      have hne : plan.pending ≠ [] := fun hnil ↦ hempty (List.isEmpty_iff.2 hnil)
      obtain ⟨next, hnext, h⟩ := Except.of_bind_ok h
      obtain ⟨-, -, hsub⟩ := pass_ok hnext
      refine @ih (plan.resumed next) (fun form hform ↦ ?_) (allowed_of_pass hforms hne hn hnext) h
      rw [(resumed_ok plan next).2] at hform
      exact hforms form (hsub.subset hform)

/-- Every equation that was pending is pending or done with after any number of passes. -/
theorem passes_ok {n : Nat} (h : passes n plan = .ok plan') :
    Extends plan plan' ∧ ∀ form ∈ plan.pending, form ∈ plan'.pending ∨ Settled plan' form := by
  induction n generalizing plan with
  | zero =>
    cases h
    exact ⟨.refl _, fun _ ↦ .inl⟩
  | succ n ih =>
    unfold passes at h
    split at h
    · cases h
      exact ⟨.refl _, fun _ ↦ .inl⟩
    · obtain ⟨next, hnext, h⟩ := Except.of_bind_ok h
      obtain ⟨hlater, hdone, -⟩ := pass_ok hnext
      -- committing in between moves nothing and keeps the list
      have hcommit := resumed_ok plan next
      obtain ⟨hlater', hdone'⟩ := @ih (plan.resumed next) h
      refine ⟨(hlater.trans hcommit.1).trans hlater', fun form hform ↦ ?_⟩
      rcases hdone form hform with hpending | hsettled
      · exact hdone' form (by rwa [hcommit.2])
      · exact .inr (hsettled.extends (hcommit.1.trans hlater'))

/-! ### Runs -/

/-- A demand is checked where its target may not be set. Otherwise the target is set, and determined if the
demand is required. -/
theorem startOne_cases {fixed : List ExtVar} {v : Float} {required : Bool}
    (h : startOne fixed plan (x, v, required) = .ok plan') :
    (x ∈ fixed ∨ plan.slots.isReadonly x = true) ∧ plan' = plan ∧
        (required = true → (plan.slots.value x).near (.number v) = true) ∨
      ¬ (x ∈ fixed ∨ plan.slots.isReadonly x = true) ∧ plan.slots.contains x = true ∧
        plan'.slots = plan.slots.assign x (.number v) ∧ plan'.pending = plan.pending ∧
        ∀ y, y ∈ plan'.determined ↔ y ∈ plan.determined ∨ required = true ∧ y = x := by
  unfold startOne at h
  dsimp only at h
  split at h
  · next hheld =>
    rw [Bool.or_eq_true, List.contains_iff_mem] at hheld
    split at h
    · cases h
    · next hnear =>
      cases h
      refine .inl ⟨hheld, rfl, fun hrequired ↦ ?_⟩
      simpa [hrequired] using hnear
  · next hfree =>
    rw [Bool.or_eq_true, List.contains_iff_mem] at hfree
    obtain ⟨slots, hslots, h⟩ := Except.of_bind_ok h
    obtain ⟨hexists, rfl⟩ := Slots.of_assign?_ok hslots
    cases h
    refine .inr ⟨hfree, hexists, ?_⟩
    cases required with
    | false => simp
    | true => simp [mem_determined_determine]

theorem startOne_ok {fixed : List ExtVar} {keeper : ExtVar × Float × Bool}
    (h : startOne fixed plan keeper = .ok plan') :
    plan.slots.Reassigned plan'.slots ∧ plan'.pending = plan.pending := by
  rcases startOne_cases h with ⟨-, rfl, -⟩ | ⟨-, -, hslots, hpending, -⟩
  · exact ⟨.refl _, rfl⟩
  · rw [hslots]
    exact ⟨.assign .., hpending⟩

theorem foldlM_startOne {fixed : List ExtVar} {keepers : List (ExtVar × Float × Bool)}
    (h : keepers.foldlM (startOne fixed) plan = .ok plan') :
    plan.slots.Reassigned plan'.slots ∧ plan'.pending = plan.pending := by
  induction keepers generalizing plan with
  | nil =>
    cases h
    exact ⟨.refl _, rfl⟩
  | cons keeper keepers ih =>
    rw [List.foldlM_cons] at h
    obtain ⟨plan₁, h₁, h⟩ := Except.of_bind_ok h
    obtain ⟨hslots, hpending⟩ := startOne_ok h₁
    obtain ⟨hslots', hpending'⟩ := ih h
    exact ⟨hslots.trans hslots', hpending'.trans hpending⟩

theorem determineReadonly_ok (plan : Plan) :
    (determineReadonly plan).slots = plan.slots ∧
      (determineReadonly plan).pending = plan.pending := by
  have hfold : ∀ (xs : List ExtVar) (plan : Plan),
      (xs.foldl (fun plan x ↦ if plan.slots.isReadonly x then plan.determine x else plan)
          plan).slots = plan.slots ∧
        (xs.foldl (fun plan x ↦ if plan.slots.isReadonly x then plan.determine x else plan)
          plan).pending = plan.pending := by
    intro xs
    induction xs with
    | nil => exact fun _ ↦ ⟨rfl, rfl⟩
    | cons x xs ih =>
      intro plan
      rw [List.foldl_cons]
      split
      · rw [(ih _).1, (ih _).2, slots_determine, pending_determine]
        exact ⟨rfl, rfl⟩
      · exact ih plan
  exact hfold _ _

variable {d : Dataflow} {fixed : List ExtVar} {s s' : Slots}

/-- **Dataflow planning is sound.** A successful run touches values only and leaves every enabled
equation balanced. -/
theorem balanced_of_propagate (hforms : ∀ form ∈ d.equations, form.Ordered)
    (h : d.propagate fixed s = .ok s') :
    s.Reassigned s' ∧ ∀ form ∈ d.equations, form.Balanced s'.value := by
  obtain ⟨started, hstarted, h⟩ := Except.of_bind_ok h
  obtain ⟨final, hfinal, h⟩ := Except.of_bind_ok h
  cases h
  obtain ⟨hslots, hpending⟩ := foldlM_startOne hstarted
  obtain ⟨hslots', hpending'⟩ := determineReadonly_ok started
  have hequations : (determineReadonly started).pending = d.equations := hpending'.trans hpending
  obtain ⟨hlater, hdone⟩ := passes_ok hfinal
  have hnone : final.pending = [] := by
    refine pending_of_passes ?_ (.inl ?_) hfinal
    · rwa [hequations]
    · exact Nat.le_of_eq (by rw [hequations])
  refine ⟨hslots.trans (hslots' ▸ hlater.slots), fun form hform ↦ ?_⟩
  rcases hdone form (hequations ▸ hform) with hstill | hsettled
  · rw [hnone] at hstill
    exact absurd hstill (by simp)
  · exact hsettled.balanced

/-- The forms of an enabled clause are among the equations of a run. -/
theorem mem_equations {forms : List LinearForm} {priority : Priority} {form : LinearForm}
    (h : (.relation forms, priority) ∈ d.model.enabled) (hform : form ∈ forms) :
    form ∈ d.equations :=
  List.mem_flatMap.2 ⟨_, h, hform⟩

theorem form_of_equation? {rel : LinearRelation} {form : LinearForm}
    (h : equation? rel = .ok form) : rel.form = form := by
  unfold equation? at h
  split at h
  · cases h
    rfl
  · cases h

end LiveConstraints.Dataflow

import LiveConstraints.Measurement
import LiveConstraints.Proofs.Numbers.Order
/-!
# The choice is a first minimum

A measured candidate is placed by the values of the metrics that are asked for, in their order
(`Measurement.values`), and these are compared lexicographically (`Numbers.Precedes`). As long as none of
them is undefined, the numbers of a metric are ordered as their ranks are, so the lists of values are
ordered as the lists of ranks are (`Numbers.precedes_iff`), and that order is linear.

Going through the candidates keeps one that comes strictly before everything ahead of it and is not preceded
by anything behind it up to there (`Leads`). `selectBest_isFirst` is what this comes to in the end.
-/

namespace LiveConstraints

open Numbers

/-! ### Lexicographic comparison -/

/-- At the first place where two lists of numbers differ, the number of the one is smaller. -/
def Numbers.Precedes : List Float → List Float → Prop
  | x :: xs, y :: ys => x < y ∨ (x == y) = true ∧ Precedes xs ys
  | _, _ => False

/-- None of the numbers is undefined. -/
def Numbers.Defined (xs : List Float) : Prop := ∀ x ∈ xs, x.isNaN = false

theorem Numbers.precedes_iff {xs ys : List Float} (hlength : xs.length = ys.length) (hxs : Defined xs)
    (hys : Defined ys) : Precedes xs ys ↔ xs.map rank < ys.map rank := by
  induction xs generalizing ys with
  | nil =>
    obtain rfl := List.length_eq_zero_iff.1 hlength.symm
    exact ⟨False.elim, fun h ↦ absurd h (lt_irrefl _)⟩
  | cons x xs ih =>
    cases ys with
    | nil => cases hlength
    | cons y ys =>
      have hx : x.isNaN = false := hxs x List.mem_cons_self
      have hy : y.isNaN = false := hys y List.mem_cons_self
      rw [Precedes, lt_iff hx hy, beq_iff hx hy, ih (Nat.succ.inj hlength)
        (fun z hz ↦ hxs z (List.mem_cons_of_mem _ hz)) (fun z hz ↦ hys z (List.mem_cons_of_mem _ hz)),
        List.map_cons, List.map_cons, List.cons_lt_cons_iff]

namespace Measurement

variable {order : List Metric} {m best : Measurement}

/-- The values of the metrics that candidates are compared by. -/
def values (order : List Metric) (m : Measurement) : List Float := order.map m.value

/-- A candidate is better than another one if its values precede those of the other. -/
theorem betterThan_iff (hm : Defined (m.values order)) (hbest : Defined (best.values order)) :
    m.betterThan order best = true ↔ (m.values order).map rank < (best.values order).map rank := by
  rw [← precedes_iff (by rw [values, values, List.length_map, List.length_map]) hm hbest]
  induction order with
  | nil => exact ⟨fun h ↦ (Bool.false_ne_true h).elim, False.elim⟩
  | cons metric order ih =>
    have hx : (m.value metric).isNaN = false := hm _ List.mem_cons_self
    have hy : (best.value metric).isNaN = false := hbest _ List.mem_cons_self
    have hrest := ih (fun z hz ↦ hm z (List.mem_cons_of_mem _ hz))
      fun z hz ↦ hbest z (List.mem_cons_of_mem _ hz)
    rw [betterThan, Value.compareNumbers?]
    show _ ↔ m.value metric < best.value metric ∨
      (m.value metric == best.value metric) = true ∧ Precedes (m.values order) (best.values order)
    rcases lt_trichotomy (rank (m.value metric)) (rank (best.value metric)) with hlt | heq | hgt
    · have hless : m.value metric < best.value metric := (lt_iff hx hy).2 hlt
      simp [hless]
    · have hnot : ¬ m.value metric < best.value metric := fun h ↦ ((lt_iff hx hy).1 h).ne heq
      have hsame : (m.value metric == best.value metric) = true := (beq_iff hx hy).2 heq
      simpa [hnot, hsame] using hrest
    · have hnot : ¬ m.value metric < best.value metric := fun h ↦ ((lt_iff hx hy).1 h).asymm hgt
      have hdiffers : ¬ (m.value metric == best.value metric) = true :=
        fun h ↦ hgt.ne' ((beq_iff hx hy).1 h)
      have hgreater : best.value metric < m.value metric := (lt_iff hy hx).2 hgt
      simp [hnot, hdiffers, hgreater]

end Measurement

/-! ### The first minimum -/

section

variable {κ : Type} {order : List Metric} {candidates : List (κ × Measurement)}

/-- The ranks of a candidate's values. -/
def standing (order : List Metric) (c : κ × Measurement) : List Rank := (c.2.values order).map rank

/-- A candidate comes strictly before everything ahead of it and not after anything behind it. -/
structure Leads (order : List Metric) (before : List (κ × Measurement)) (best : κ × Measurement)
    (after : List (κ × Measurement)) : Prop where
  ahead : ∀ c ∈ before, standing order best < standing order c
  behind : ∀ c ∈ after, standing order best ≤ standing order c

theorem precedes_iff_standing {c d : κ × Measurement} (hc : Defined (c.2.values order))
    (hd : Defined (d.2.values order)) :
    Precedes (c.2.values order) (d.2.values order) ↔ standing order c < standing order d :=
  precedes_iff (by simp [Measurement.values]) hc hd

/-- A candidate that is better than the leading one leads what has been gone through so far. -/
theorem Leads.replace {before after : List (κ × Measurement)} {best c : κ × Measurement}
    (h : Leads order before best after) (hlt : standing order c < standing order best) :
    Leads order (before ++ best :: after) c [] := by
  refine ⟨fun d hd ↦ ?_, by simp⟩
  rcases List.mem_append.1 hd with hahead | hd
  · exact hlt.trans (h.ahead d hahead)
  · rcases List.mem_cons.1 hd with rfl | hbehind
    · exact hlt
    · exact hlt.trans_le (h.behind d hbehind)

/-- One that is not better stays behind the leading one. -/
theorem Leads.keep {before after : List (κ × Measurement)} {best c : κ × Measurement}
    (h : Leads order before best after) (hle : standing order best ≤ standing order c) :
    Leads order before best (after ++ [c]) := by
  refine ⟨h.ahead, fun d hd ↦ ?_⟩
  rcases List.mem_append.1 hd with hbehind | hd
  · exact h.behind d hbehind
  · rwa [List.mem_singleton.1 hd]

/-- Going on through the candidates finds one that leads all of them. -/
theorem leads_foldl {before after rest : List (κ × Measurement)} {best : κ × Measurement}
    (hdefined : ∀ c ∈ before ++ best :: after ++ rest, Defined (c.2.values order))
    (h : Leads order before best after) :
    ∃ before' best' after', before ++ best :: after ++ rest = before' ++ best' :: after' ∧
      rest.foldl (fun best candidate ↦ if candidate.2.betterThan order best.2 then candidate else best)
        best = best' ∧ Leads order before' best' after' := by
  induction rest generalizing before best after with
  | nil => exact ⟨before, best, after, by simp, rfl, h⟩
  | cons c rest ih =>
    have hbetter : c.2.betterThan order best.2 = true ↔ standing order c < standing order best :=
      Measurement.betterThan_iff (hdefined c (by simp)) (hdefined best (by simp))
    rw [List.foldl_cons]
    -- the next candidate takes over with everything up to it ahead, or it goes behind
    split
    · next hc =>
      have hsame : before ++ best :: after ++ c :: rest = (before ++ best :: after) ++ c :: [] ++ rest := by
        simp
      rw [hsame] at hdefined ⊢
      exact ih hdefined (h.replace (hbetter.1 hc))
    · next hc =>
      have hsame : before ++ best :: after ++ c :: rest = before ++ best :: (after ++ [c]) ++ rest := by
        simp
      rw [hsame] at hdefined ⊢
      exact ih hdefined (h.keep (not_lt.1 fun hlt ↦ hc (hbetter.2 hlt)))

/-- **The choice is a first minimum.** Where none of the metrics that are asked for is undefined for one of
the candidates, no candidate has values that precede those of the chosen one, and the values of the chosen
one precede those of every candidate ahead of it. -/
theorem selectBest_isFirst (hsome : candidates ≠ [])
    (hdefined : ∀ c ∈ candidates, ∀ metric ∈ order, (c.2.value metric).isNaN = false) :
    ∃ before best after, candidates = before ++ best :: after ∧
      selectBest order candidates = some best.1 ∧
      (∀ c ∈ candidates, ¬ Precedes (c.2.values order) (best.2.values order)) ∧
      ∀ c ∈ before, Precedes (best.2.values order) (c.2.values order) := by
  have hvalues : ∀ c ∈ candidates, Defined (c.2.values order) := fun c hc x hx ↦ by
    obtain ⟨metric, hmetric, rfl⟩ := List.mem_map.1 hx
    exact hdefined c hc metric hmetric
  obtain ⟨first, rest, rfl⟩ := List.exists_cons_of_ne_nil hsome
  have hall : ∀ c ∈ [] ++ first :: [] ++ rest, Defined (c.2.values order) := hvalues
  have hstart : Leads order [] first [] := ⟨by simp, by simp⟩
  obtain ⟨before, best, after, hsplit, hfold, hleads⟩ := leads_foldl hall hstart
  rw [show [] ++ first :: [] ++ rest = first :: rest from rfl] at hsplit
  have hbest : Defined (best.2.values order) := hvalues best (by simp [hsplit])
  refine ⟨before, best, after, hsplit, by rw [selectBest, hfold], fun c hc ↦ ?_, fun c hc ↦ ?_⟩
  · rw [precedes_iff_standing (hvalues c hc) hbest, not_lt]
    rw [hsplit] at hc
    rcases List.mem_append.1 hc with hahead | hc
    · exact (hleads.ahead c hahead).le
    · rcases List.mem_cons.1 hc with rfl | hbehind
      · exact le_refl _
      · exact hleads.behind c hbehind
  · exact (precedes_iff_standing hbest (hvalues c (by simp [hsplit, hc]))).2 (hleads.ahead c hc)

end

/-- Three candidates: the first one changed two variables, and the other two changed one by as much. -/
def rivals : List (String × Measurement) :=
  [("relaxed", { changes := [⟨⟨0⟩, .number 1, .number 2⟩, ⟨⟨1⟩, .number 1, .number 2⟩] }),
    ("planned", { changes := [⟨⟨0⟩, .number 1, .number 3⟩, ⟨⟨1⟩, .number 1, .number 1⟩] }),
    ("searched", { changes := [⟨⟨0⟩, .number 1, .number 1⟩, ⟨⟨1⟩, .number 3, .number 1⟩] })]

/-- The second one is chosen: it changed fewer variables than the first one and as much as the third. -/
theorem selectBest_isFirst_rivals : selectBest [.changedVariables, .squaredDistance] rivals = some "planned" ∧
    ∃ best ∈ rivals, best.1 = "planned" ∧ ∀ c ∈ rivals,
      ¬ Precedes (c.2.values [.changedVariables, .squaredDistance])
        (best.2.values [.changedVariables, .squaredDistance]) := by
  have hchosen : selectBest [.changedVariables, .squaredDistance] rivals = some "planned" := by
    decide +kernel
  have hdefined : ∀ c ∈ rivals, ∀ metric ∈ [Metric.changedVariables, .squaredDistance],
      (c.2.value metric).isNaN = false := by decide +kernel
  obtain ⟨before, best, after, hsplit, hbest, hleast, -⟩ :=
    selectBest_isFirst (by simp [rivals]) hdefined
  rw [hchosen] at hbest
  exact ⟨hchosen, best, by simp [hsplit], (Option.some.inj hbest).symm, hleast⟩

end LiveConstraints

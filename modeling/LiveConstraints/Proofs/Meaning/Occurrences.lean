import LiveConstraints.Proofs.Terms
/-!
# The variables of a term and its conjuncts

The three recursions over a term that the solvers rest on. The variables of a term are those that
occur in it, each once and in the order in which they first occur, and its value depends on them
alone. A term is true exactly where all its conjuncts are, whatever the operands of its other
connectives evaluate to (`Term.vars_and_conjuncts_exact`).
-/

namespace LiveConstraints

namespace Term

variable {t : Term} {x : ExtVar} {xs seen : List ExtVar}

/-- The variables of a term as they stand in it, from left to right. -/
def occurrences : Term → List ExtVar
  | .var x => [x]
  | .const _ => []
  | .unary _ t => t.occurrences
  | .binary _ l r => l.occurrences ++ r.occurrences
  | .inDomain t _ => t.occurrences

/-! ### The order of first occurrence -/

/-- A list names each member of another one once, in the order of first occurrence. -/
structure Distinguishes (seen xs : List ExtVar) : Prop where
  /-- The two lists have the same members. -/
  mem_iff : ∀ x, x ∈ seen ↔ x ∈ xs
  /-- What comes first in the one list first occurs earlier in the other. -/
  ordered : seen.Pairwise fun x y ↦ xs.idxOf x < xs.idxOf y

/-- Nothing first occurs before itself. -/
theorem Distinguishes.nodup (h : Distinguishes seen xs) : seen.Nodup :=
  h.ordered.imp fun hlt heq ↦ absurd (heq ▸ hlt) (Nat.lt_irrefl _)

/-- Members that occur already keep their places when more is written behind them. -/
theorem Distinguishes.pairwise_append (h : Distinguishes seen xs) (ys : List ExtVar) :
    seen.Pairwise fun x y ↦ (xs ++ ys).idxOf x < (xs ++ ys).idxOf y := by
  refine h.ordered.imp_of_mem fun hx hy hlt ↦ ?_
  rwa [List.idxOf_append_of_mem ((h.mem_iff _).1 hx), List.idxOf_append_of_mem ((h.mem_iff _).1 hy)]

/-- A variable met again is not added. -/
theorem Distinguishes.again (h : Distinguishes seen xs) (hx : x ∈ seen) :
    Distinguishes seen (xs ++ [x]) where
  mem_iff y := by
    rw [h.mem_iff, List.mem_append, List.mem_singleton]
    exact ⟨.inl, fun hy ↦ hy.elim id fun hy ↦ hy ▸ (h.mem_iff x).1 hx⟩
  ordered := h.pairwise_append [x]

/-- A variable met for the first time is added at the end. -/
theorem Distinguishes.fresh (h : Distinguishes seen xs) (hx : x ∉ seen) :
    Distinguishes (seen ++ [x]) (xs ++ [x]) where
  mem_iff y := by rw [List.mem_append, List.mem_append, h.mem_iff]
  ordered := by
    refine List.pairwise_append.2 ⟨h.pairwise_append [x], List.pairwise_singleton _ x, ?_⟩
    intro y hy z hz
    obtain rfl := List.mem_singleton.1 hz
    have hyxs : y ∈ xs := (h.mem_iff y).1 hy
    have hzxs : z ∉ xs := fun hz ↦ hx ((h.mem_iff z).2 hz)
    rw [List.idxOf_append_of_mem hyxs, List.idxOf_append_of_notMem hzxs]
    exact Nat.lt_of_lt_of_le (List.idxOf_lt_length_of_mem hyxs) (Nat.le_add_right _ _)

/-- Collecting carries on from what has occurred so far to what has occurred after the term. -/
theorem distinguishes_collectVariables (h : Distinguishes seen xs) :
    Distinguishes (t.collectVariables seen) (xs ++ t.occurrences) := by
  induction t generalizing seen xs with
  | var x =>
    rw [collectVariables]
    split
    · next hx => exact h.again (List.contains_iff_mem.1 hx)
    · next hx => exact h.fresh fun hmem ↦ hx (List.contains_iff_mem.2 hmem)
  | const v => rwa [occurrences, List.append_nil]
  | unary op t ih => exact ih h
  | binary op l r ihl ihr =>
    rw [occurrences, ← List.append_assoc]
    exact ihr (ihl h)
  | inDomain t domain ih => exact ih h

/-- The variables of a term are its occurrences without repetitions. -/
theorem distinguishes_vars (t : Term) : Distinguishes t.vars t.occurrences :=
  have hnone : Distinguishes [] [] := ⟨fun _ ↦ Iff.rfl, .nil⟩
  distinguishes_collectVariables hnone

/-! ### Conjunctions -/

/-- A conjunction is true exactly if both operands are; operands that are no booleans make it
false. -/
theorem applyBinary_and_eq_true {l r : Value} :
    Operator.and.applyBinary l r = .bool true ↔ l = .bool true ∧ r = .bool true := by
  unfold Operator.applyBinary Operator.connective
  cases l <;> cases r <;> simp [Value.asBool?]

theorem evaluate_eq_true_iff {lookup : ExtVar → Value} :
    t.evaluate lookup = .bool true ↔ ∀ c ∈ t.conjuncts, c.evaluate lookup = .bool true := by
  induction t using conjuncts.induct with
  | case1 l r ihl ihr =>
    rw [evaluate, applyBinary_and_eq_true, ihl, ihr, conjuncts, List.forall_mem_append]
  | case2 t hne =>
    rw [conjuncts, List.forall_mem_singleton]
    exact hne

/-- The variables of a term are exactly those that occur in it, without repetition and in the order
of first occurrence; look-ups that agree on them give it the same value; and it is true under a
look-up exactly if each of its conjuncts is. -/
theorem vars_and_conjuncts_exact (t : Term) :
    (∀ x, x ∈ t.vars ↔ x ∈ t.occurrences) ∧ t.vars.Nodup ∧
      t.vars.Pairwise (fun x y ↦ t.occurrences.idxOf x < t.occurrences.idxOf y) ∧
      (∀ f g : ExtVar → Value, (∀ x ∈ t.vars, f x = g x) → t.evaluate f = t.evaluate g) ∧
      ∀ lookup : ExtVar → Value,
        t.evaluate lookup = .bool true ↔ ∀ c ∈ t.conjuncts, c.evaluate lookup = .bool true := by
  have hvars := distinguishes_vars t
  refine ⟨hvars.mem_iff, hvars.nodup, hvars.ordered, fun f g h ↦ ?_, fun _ ↦ evaluate_eq_true_iff⟩
  exact evaluate_congr fun x hx ↦ h x (mem_vars.2 hx)

/-- The variable that first occurs first comes first, also if it has the higher index. -/
example :
    (binary .add (var ⟨2⟩) (binary .mul (var ⟨1⟩) (var ⟨2⟩))).vars = [⟨2⟩, ⟨1⟩] := by decide

end Term

end LiveConstraints

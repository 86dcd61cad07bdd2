import Mathlib
/-!
# The order of numbers

Numbers are compared by their signs, then by their exponents and then by their mantissas, in the other
direction below zero. `Numbers.rank` puts these into one linear order, in which both zeros have the same
rank: numbers other than not-a-number compare as their ranks do (`Numbers.lt_iff`, `Numbers.le_iff`,
`Numbers.beq_iff`). So comparison is a total preorder on them, and whatever is said of it below is read off
the order of ranks.
-/

open Float.Model (UnpackedFloat)

namespace LiveConstraints.Numbers

/-- Where numbers stand: their sign and kind, their exponent and their mantissa. -/
abbrev Rank : Type := ℤ ×ₗ ℤ ×ₗ ℤ

/-- The rank of a number by its parts. -/
def rankOfParts : UnpackedFloat → Rank
  | .infinity .negative => toLex (-2, toLex (0, 0))
  | .finite .negative m e _ => toLex (-1, toLex (-e, -(m : ℤ)))
  | .zero _ => toLex (0, toLex (0, 0))
  | .finite .positive m e _ => toLex (1, toLex (e, (m : ℤ)))
  | .infinity .positive => toLex (2, toLex (0, 0))
  | .notANumber => toLex (0, toLex (0, 0))

/-- The rank of a number; that of not-a-number means nothing. -/
def rank (x : Float) : Rank := rankOfParts x.toModel.unpack

theorem compare_then_eq_lt {e e' : ℤ} {m m' : ℕ} :
    (compare e e').then (compare m m') = .lt ↔ e < e' ∨ e = e' ∧ m < m' := by
  rw [Ordering.then_eq_lt, Int.compare_eq_lt, Int.compare_eq_eq, Nat.compare_eq_lt]

theorem compare_then_eq_gt {e e' : ℤ} {m m' : ℕ} :
    (compare e e').then (compare m m') = .gt ↔ e' < e ∨ e = e' ∧ m' < m := by
  rw [Ordering.then_eq_gt, Int.compare_eq_gt, Int.compare_eq_eq, Nat.compare_eq_gt]

theorem compare_eq_lt_iff {u w : UnpackedFloat} (hu : u.isNaN = false) (hw : w.isNaN = false) :
    u.compare w = some .lt ↔ rankOfParts u < rankOfParts w := by
  rcases u with (_ | _) | _ | (_ | _) | ⟨_ | _, m, e, hm⟩ <;>
    rcases w with (_ | _) | _ | (_ | _) | ⟨_ | _, m', e', hm'⟩ <;>
    simp_all [UnpackedFloat.compare, UnpackedFloat.isNaN, rankOfParts, Prod.Lex.toLex_lt_toLex,
      compare_then_eq_lt, compare_then_eq_gt, Ordering.swap_eq_lt]
  -- numbers of different kinds compare as the kinds do
  all_goals decide

theorem compare_eq_eq_iff {u w : UnpackedFloat} (hu : u.isNaN = false) (hw : w.isNaN = false) :
    u.compare w = some .eq ↔ rankOfParts u = rankOfParts w := by
  rcases u with (_ | _) | _ | (_ | _) | ⟨_ | _, m, e, hm⟩ <;>
    rcases w with (_ | _) | _ | (_ | _) | ⟨_ | _, m', e', hm'⟩ <;>
    simp_all [UnpackedFloat.compare, UnpackedFloat.isNaN, rankOfParts, Ordering.swap_eq_eq]
  all_goals decide

variable {x y z : Float}

theorem lt_iff (hx : x.isNaN = false) (hy : y.isNaN = false) : x < y ↔ rank x < rank y := by
  have h : x < y ↔ (x.toModel.unpack.compare y.toModel.unpack == some .lt) = true := decide_eq_true_iff
  rw [h, beq_iff_eq, compare_eq_lt_iff hx hy, rank, rank]

theorem beq_iff (hx : x.isNaN = false) (hy : y.isNaN = false) : (x == y) = true ↔ rank x = rank y := by
  have h : (x == y) = true ↔ (x.toModel.unpack.compare y.toModel.unpack == some .eq) = true := Iff.rfl
  rw [h, beq_iff_eq, compare_eq_eq_iff hx hy, rank, rank]

theorem le_iff (hx : x.isNaN = false) (hy : y.isNaN = false) : x ≤ y ↔ rank x ≤ rank y := by
  have h : x ≤ y ↔ ((x.toModel.unpack.compare y.toModel.unpack).any (·.isLE)) = true :=
    decide_eq_true_iff
  rw [h, le_iff_lt_or_eq, rank, rank, ← compare_eq_lt_iff hx hy, ← compare_eq_eq_iff hx hy]
  rcases x.toModel.unpack.compare y.toModel.unpack with _ | (_ | _ | _) <;> simp [Ordering.isLE]

theorem isNaN_of_le (h : x ≤ y) : x.isNaN = false ∧ y.isNaN = false := by
  have h : (x.toModel.unpack.compare y.toModel.unpack).any (·.isLE) = true := of_decide_eq_true h
  show x.toModel.unpack.isNaN = false ∧ y.toModel.unpack.isNaN = false
  revert h
  rcases x.toModel.unpack with (_ | _) | _ | (_ | _) | ⟨_ | _, _, _, _⟩ <;>
    rcases y.toModel.unpack with (_ | _) | _ | (_ | _) | ⟨_ | _, _, _, _⟩ <;>
    simp [UnpackedFloat.compare, UnpackedFloat.isNaN]

theorem not_lt_of_le (h : x ≤ y) : ¬ y < x := by
  obtain ⟨hx, hy⟩ := isNaN_of_le h
  rw [lt_iff hy hx, not_lt]
  exact (le_iff hx hy).1 h

theorem le_of_not_lt (hx : x.isNaN = false) (hy : y.isNaN = false) (h : ¬ y < x) : x ≤ y := by
  rw [lt_iff hy hx, not_lt] at h
  exact (le_iff hx hy).2 h

end LiveConstraints.Numbers

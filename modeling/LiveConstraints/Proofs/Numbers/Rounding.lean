import LiveConstraints.Proofs.Numbers.Order
import LiveConstraints.Proofs.Numbers.Parts
/-!
# Rounding

A sum or a product is formed exactly and then rounded: its mantissa is shifted until it has 53 bits, or
until the exponent is the least one, and the bits that fall off decide whether one is added. That may
leave a bit too many, so the mantissa is shifted once more.

Two consequences are needed. A mantissa with nothing but zeros to fall off is rounded to itself
(`Numbers.roundWithAccuracy_of_canonical`). And rounding does not go below a canonical number that is
not greater than the exact result (`Numbers.le_round`), so that adding a positive number to another one
gives no less (`Numbers.le_add`).
-/

open Float.Model (UnpackedFloat Format totalExponent)
open Float.Model.UnpackedFloat

namespace LiveConstraints.Numbers

/-! ### Shifting -/

/-- A mantissa that `k` bits have fallen off. -/
def shifted (m k : ℕ) : ExtendedMantissa := ExtendedMantissa.mk m false false >>> k

theorem shifted_zero (m : ℕ) : shifted m 0 = ⟨m, false, false⟩ := rfl

theorem shifted_succ (m k : ℕ) : shifted m (k + 1) = (shifted m k).shiftRightOne := rfl

@[simp]
theorem mantissa_shifted (m k : ℕ) : (shifted m k).mantissa = m / 2 ^ k := by
  induction k with
  | zero => exact (Nat.div_one m).symm
  | succ k ih =>
    rw [shifted_succ, Nat.pow_succ, ← Nat.div_div_eq_div_mul, ← ih]
    rfl

/-- Zeros that fall off are not remembered. -/
theorem shifted_two_pow_mul (m k : ℕ) : shifted (2 ^ k * m) k = ⟨m, false, false⟩ := by
  induction k generalizing m with
  | zero => rw [Nat.pow_zero, Nat.one_mul, shifted_zero]
  | succ k ih =>
    rw [shifted_succ, Nat.pow_succ, Nat.mul_assoc, ih]
    simp [ExtendedMantissa.shiftRightOne]

theorem le_roundedMantissa (em : ExtendedMantissa) :
    em.mantissa ≤ em.roundedMantissa ∧ em.roundedMantissa ≤ em.mantissa + 1 := by
  obtain ⟨m, _ | _, _ | _⟩ := em <;>
    simp only [ExtendedMantissa.roundedMantissa, ExtendedMantissa.accuracy,
      Accuracy.roundToNearestEven] <;> omega

/-- The exponent that a mantissa is shifted to. -/
def target (m : ℕ) (e : ℤ) : ℤ := max (m.log2 + 1 + e - 53) (-1074)

theorem target_of_canonical {s : Float.Model.UnpackedFloat.Sign} {m : ℕ} {e : ℤ} {hm : 0 < m}
    (h : Canonical (.finite s m e hm)) : target m e = e := by
  obtain ⟨hlt, hmin, hnormal⟩ := h
  have hlog : m.log2 < 53 := (Nat.log2_lt (by omega)).2 hlt
  rw [target]
  by_cases hle : 2 ^ 52 ≤ m
  · have hlog' : m.log2 = 52 := (Nat.log2_eq_iff (by omega)).2 ⟨hle, hlt⟩
    omega
  · omega

/-- The second part of rounding: takes off the bit that may be too many. -/
def settled (s : Float.Model.UnpackedFloat.Sign) (m : ℕ) (e : ℤ) : UnpackedFloat :=
  let k := (target m e - e).toNat
  if h : (shifted m k).mantissa = 0 then .zero s
  else .finite s (shifted m k).mantissa (e + k) (Nat.pos_of_ne_zero h)

theorem roundWithAccuracy_eq (s : Float.Model.UnpackedFloat.Sign) (m : ℕ) (e : ℤ) :
    roundWithAccuracy .binary64 s m e .exact =
      settled s (shifted m (target m e - e).toNat).roundedMantissa (e + (target m e - e).toNat) :=
  rfl

theorem settled_of_canonical {s : Float.Model.UnpackedFloat.Sign} {m : ℕ} {e : ℤ} {hm : 0 < m}
    (h : Canonical (.finite s m e hm)) : settled s m e = .finite s m e hm := by
  have hk : (target m e - e).toNat = 0 := by
    rw [target_of_canonical h]
    omega
  simp only [settled, hk, shifted_zero, Nat.cast_zero, add_zero]
  exact dif_neg (by omega)

/-- Trailing zeros make no difference. -/
theorem roundWithAccuracy_of_canonical {s : Float.Model.UnpackedFloat.Sign} {m : ℕ} {e : ℤ} {hm : 0 < m}
    (h : Canonical (.finite s m e hm)) (n : ℕ) :
    roundWithAccuracy .binary64 s (2 ^ n * m) (e - n) .exact = .finite s m e hm := by
  have hlog : (2 ^ n * m).log2 = n + m.log2 := by
    rw [Nat.log2_eq_iff (by positivity), Nat.pow_add, Nat.pow_succ, Nat.pow_add, Nat.mul_assoc]
    have hlog := (Nat.log2_eq_iff (Nat.ne_of_gt hm)).1 rfl
    exact ⟨Nat.mul_le_mul_left _ hlog.1, Nat.mul_lt_mul_of_pos_left hlog.2 (by positivity)⟩
  have htarget : target (2 ^ n * m) (e - n) = e := by
    have hcanonical := target_of_canonical h
    simp only [target, hlog] at hcanonical ⊢
    omega
  have hshift : (e - (e - n)).toNat = n := by omega
  rw [roundWithAccuracy_eq, htarget, hshift, shifted_two_pow_mul, show e - n + n = e by omega]
  exact settled_of_canonical h

/-! ### Bounds -/

theorem settled_of_le {s : Float.Model.UnpackedFloat.Sign} {m : ℕ} {e : ℤ} (hm : 0 < m) (hle : m ≤ 2 ^ 53)
    (hmin : -1074 ≤ e) (hnormal : 2 ^ 52 ≤ m ∨ e = -1074) : ∃ m' e' hm',
      settled s m e = .finite s m' e' hm' ∧ Canonical (.finite s m' e' hm') ∧
        (e < e' ∨ e = e' ∧ m = m') := by
  by_cases hlt : m < 2 ^ 53
  · have hcanonical : Canonical (.finite s m e hm) := ⟨hlt, hmin, hnormal⟩
    exact ⟨m, e, hm, settled_of_canonical hcanonical, hcanonical, .inr ⟨rfl, rfl⟩⟩
  · obtain rfl : m = 2 ^ 53 := by omega
    have hk : (target (2 ^ 53) e - e).toNat = 1 := by
      have hlog : Nat.log2 (2 ^ 53) = 53 := Nat.log2_two_pow
      rw [target, hlog]
      omega
    refine ⟨2 ^ 52, e + 1, by decide, ?_, ⟨by decide, by omega, .inl (Nat.le_refl _)⟩, .inl (by omega)⟩
    simp only [settled, hk]
    rfl

/-- Rounding a mantissa that is not too short gives canonical parts, and nothing less than canonical parts
that the exact number reaches. -/
theorem le_round {s : Float.Model.UnpackedFloat.Sign} {m₀ m : ℕ} {e₀ e : ℤ} {hm₀ : 0 < m₀}
    (h₀ : Canonical (.finite s m₀ e₀ hm₀)) (he : e ≤ e₀) (hm : m₀ * 2 ^ (e₀ - e).toNat ≤ m)
    (hmin : -1074 ≤ e) : ∃ m' e' hm', round .binary64 s m e = .finite s m' e' hm' ∧
      Canonical (.finite s m' e' hm') ∧ (e₀ < e' ∨ e₀ = e' ∧ m₀ ≤ m') := by
  obtain ⟨hlt₀, hmin₀, hnormal₀⟩ := h₀
  have hpos : 0 < m := Nat.lt_of_lt_of_le (by positivity) hm
  obtain ⟨hlog, hlog'⟩ := (Nat.log2_eq_iff (Nat.ne_of_gt hpos)).1 rfl
  -- the exponent is not below that of the lower bound
  have htarget : e₀ ≤ target m e := by
    rcases hnormal₀ with hnormal₀ | rfl
    · have hbits : 52 + (e₀ - e).toNat ≤ m.log2 := by
        rw [Nat.le_log2 (by omega), Nat.pow_add]
        exact (Nat.mul_le_mul_right _ hnormal₀).trans hm
      rw [target]
      omega
    · exact le_max_right _ _
  obtain ⟨k, hk⟩ := Int.eq_ofNat_of_zero_le (show 0 ≤ target m e - e by omega)
  have hround : round .binary64 s m e = settled s
      (shifted m k).roundedMantissa (e + k) := by
    have hdecrease : decreaseExponent m e (target m e) = (m, e) := by
      have hzero : (e - target m e).toNat = 0 := by omega
      simp [decreaseExponent, hzero]
    show roundWithAccuracy .binary64 s (decreaseExponent m e (target m e)).1
      (decreaseExponent m e (target m e)).2 .exact = _
    rw [hdecrease, roundWithAccuracy_eq, hk]
    rfl
  obtain ⟨hle, hle'⟩ := le_roundedMantissa (shifted m k)
  rw [mantissa_shifted] at hle hle'
  -- the shifted mantissa has at most 53 bits, and has them all above the least exponent
  have hupper : m / 2 ^ k < 2 ^ 53 := by
    rw [Nat.div_lt_iff_lt_mul (by positivity), ← Nat.pow_add]
    refine hlog'.trans_le (Nat.pow_le_pow_right (by decide) ?_)
    rw [target] at hk
    omega
  have hlower : 2 ^ 52 ≤ m / 2 ^ k ∨ e + k = -1074 := by
    by_cases hleast : e + k = -1074
    · exact .inr hleast
    · rw [Nat.le_div_iff_mul_le (by positivity), ← Nat.pow_add]
      refine .inl ((Nat.pow_le_pow_right (by decide) ?_).trans hlog)
      rw [target] at hk
      omega
  have hreached : e₀ < e + k ∨ e₀ = e + k ∧ m₀ ≤ m / 2 ^ k := by
    by_cases heq : e₀ = e + k
    · refine .inr ⟨heq, ?_⟩
      have hk' : (e₀ - e).toNat = k := by omega
      rwa [Nat.le_div_iff_mul_le (by positivity), ← hk']
    · exact .inl (by omega)
  obtain ⟨m', e', hm', hsettled, hcanonical, hbound⟩ := settled_of_le (s := s)
    (m := (shifted m k).roundedMantissa) (e := e + k)
    (by omega) (by omega) (by omega) (hlower.imp_left fun h ↦ h.trans hle)
  exact ⟨m', e', hm', hround.trans hsettled, hcanonical, by omega⟩

/-! ### Units -/

theorem neg_zero_add (x : Float) : -0.0 + x = x := by
  have hadd : UnpackedFloat.add .binary64 (.zero .negative) (parts x) = parts x := by
    rcases parts x with s | _ | (_ | _) | ⟨s, m, e, hm⟩ <;> rfl
  calc -0.0 + x = ofParts (UnpackedFloat.add .binary64 (.zero .negative) (parts x)) := rfl
    _ = x := by rw [hadd, ofParts_parts]

theorem mul_of_canonical {u : UnpackedFloat} (hu : Canonical u) :
    UnpackedFloat.mul .binary64 (.finite .positive (2 ^ 52) (-52) (by decide)) u = u := by
  rcases u with (_ | _) | _ | (_ | _) | ⟨_ | _, m, e, hm⟩
  case finite.negative | finite.positive =>
    have hround := roundWithAccuracy_of_canonical hu 52
    rwa [sub_eq_neg_add] at hround
  all_goals rfl

theorem one_mul (x : Float) : 1.0 * x = x :=
  calc 1.0 * x
      = ofParts (UnpackedFloat.mul .binary64 (.finite .positive (2 ^ 52) (-52) (by decide)) (parts x)) :=
        rfl
    _ = x := by rw [mul_of_canonical (canonical_parts x), ofParts_parts]

/-! ### Sums of positive numbers -/

variable {x y z : Float}

/-- The numbers above zero. -/
theorem finite_or_infinity_of_pos {u : UnpackedFloat} (h : rank 0 < rankOfParts u) :
    (∃ m e hm, u = .finite .positive m e hm) ∨ u = .infinity .positive := by
  have hzero : rank 0 = toLex (0, toLex (0, 0)) := rfl
  rw [hzero] at h
  rcases u with (_ | _) | _ | _ | ⟨_ | _, m, e, hm⟩
  case infinity.positive => exact .inr rfl
  case finite.positive => exact .inl ⟨m, e, hm, rfl⟩
  all_goals simp [rankOfParts, Prod.Lex.toLex_lt_toLex] at h

theorem rankOfParts_finite_le {m m' : ℕ} {e e' : ℤ} {hm : 0 < m} {hm' : 0 < m'}
    (h : e < e' ∨ e = e' ∧ m ≤ m') :
    rankOfParts (.finite .positive m e hm) ≤ rankOfParts (capped (.finite .positive m' e' hm')) := by
  rw [capped]
  split
  · simpa [rankOfParts, Prod.Lex.toLex_le_toLex] using h
  · simp [rankOfParts, Prod.Lex.toLex_le_toLex]

theorem add_finite {m m' : ℕ} {e e' : ℤ} (hm : 0 < m) (hm' : 0 < m') :
    UnpackedFloat.add .binary64 (.finite .positive m e hm) (.finite .positive m' e' hm') =
      round .binary64 .positive (m * 2 ^ (e - min e e').toNat + m' * 2 ^ (e' - min e e').toNat)
        (min e e') := by
  have hsum : (m * 2 ^ (e - min e e').toNat : ℕ) + (m' * 2 ^ (e' - min e e').toNat : ℕ) =
      ((m * 2 ^ (e - min e e').toNat + m' * 2 ^ (e' - min e e').toNat : ℕ) : ℤ) := (Nat.cast_add _ _).symm
  have hpos : 0 < m * 2 ^ (e - min e e').toNat + m' * 2 ^ (e' - min e e').toNat := by positivity
  have hcompare : compare ((m * 2 ^ (e - min e e').toNat + m' * 2 ^ (e' - min e e').toNat : ℕ) : ℤ) 0
      = .gt := Int.compare_eq_gt.2 (by exact_mod_cast hpos)
  simp only [UnpackedFloat.add, decreaseExponent, Nat.shiftLeft_eq, Sign.apply]
  rw [hsum, Float.Model.UnpackedFloat.normalize, hcompare, Int.toNat_natCast]

theorem isNaN_capped {u : UnpackedFloat} (h : u.isNaN = false) : (capped u).isNaN = false := by
  rcases u with _ | _ | _ | ⟨s, m, e, hm⟩
  case finite =>
    rw [capped]
    split <;> rfl
  all_goals exact h

/-- Adding a positive number gives no less. -/
theorem rank_le_rank_add (hx : rank 0 < rank x) (hy : rank 0 < rank y) :
    (x + y).isNaN = false ∧ rank x ≤ rank (x + y) := by
  have hadd : x + y = ofParts (UnpackedFloat.add .binary64 (parts x) (parts y)) := rfl
  have hcx := canonical_parts x
  have hcy := canonical_parts y
  show (parts (x + y)).isNaN = false ∧ rankOfParts (parts x) ≤ rankOfParts (parts (x + y))
  have hpx : (∃ m e hm, parts x = .finite .positive m e hm) ∨ parts x = .infinity .positive :=
    finite_or_infinity_of_pos hx
  have hpy : (∃ m e hm, parts y = .finite .positive m e hm) ∨ parts y = .infinity .positive :=
    finite_or_infinity_of_pos hy
  have hinfinity : parts (ofParts (.infinity .positive)) = .infinity .positive := parts_ofParts trivial
  rcases hpx with ⟨m, e, hm, hpx⟩ | hpx
  · rcases hpy with ⟨m', e', hm', hpy⟩ | hpy
    · rw [hpx] at hcx
      rw [hpy] at hcy
      obtain ⟨n, d, hn, hround, hsum, hle⟩ := le_round hcx (min_le_left e e')
        (Nat.le_add_right _ (m' * 2 ^ (e' - min e e').toNat)) (le_min hcx.2.1 hcy.2.1)
      rw [hadd, hpx, hpy, add_finite hm hm', hround, parts_ofParts hsum]
      exact ⟨isNaN_capped rfl, rankOfParts_finite_le hle⟩
    · rw [hadd, hpx, hpy]
      show (parts (ofParts (.infinity .positive))).isNaN = false ∧
        _ ≤ rankOfParts (parts (ofParts (.infinity .positive)))
      rw [hinfinity]
      exact ⟨rfl, by simp [rankOfParts, Prod.Lex.toLex_le_toLex]⟩
  · have hsum : x + y = ofParts (.infinity .positive) := by
      rw [hadd, hpx]
      rcases hpy with ⟨m', e', hm', hpy⟩ | hpy <;> rw [hpy] <;> rfl
    rw [hsum, hinfinity, hpx]
    exact ⟨rfl, le_refl _⟩

theorem le_add (hz : 0 < z) (hx : z ≤ x) (hy : z ≤ y) : z ≤ x + y := by
  obtain ⟨hdz, hdx⟩ := isNaN_of_le hx
  obtain ⟨-, hdy⟩ := isNaN_of_le hy
  have hzero : rank 0 < rank z := (lt_iff rfl hdz).1 hz
  have hzx : rank z ≤ rank x := (le_iff hdz hdx).1 hx
  have hzy : rank z ≤ rank y := (le_iff hdz hdy).1 hy
  obtain ⟨hsum, hle⟩ := rank_le_rank_add (hzero.trans_le hzx) (hzero.trans_le hzy)
  exact (le_iff hdz hsum).2 (hzx.trans hle)

end LiveConstraints.Numbers

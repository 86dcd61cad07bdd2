import LiveConstraints.Proofs.Numbers.Rounding
/-!
# Distances

The distance of two numbers is written as the absolute value of a difference in one place and of a sum with
a negated number in another. These agree (`Numbers.abs_add_neg`), and between finite numbers the distance
is a number (`Numbers.isNaN_abs_sub`).
-/

open Float.Model (UnpackedFloat Format)
open Float.Model.UnpackedFloat

namespace LiveConstraints.Numbers

variable {u w : UnpackedFloat} {x y z : Float}

/-! ### Signs -/

theorem capped_parts (x : Float) : capped (parts x) = parts x := by
  rw [← parts_ofParts (canonical_parts x), ofParts_parts]

theorem parts_neg (x : Float) : parts (-x) = UnpackedFloat.neg (parts x) := by
  have hcanonical : Canonical (UnpackedFloat.neg (parts x)) := by
    have h := canonical_parts x
    revert h
    rcases parts x with _ | _ | _ | _ <;> exact id
  have hcapped : capped (UnpackedFloat.neg (parts x)) = UnpackedFloat.neg (capped (parts x)) := by
    rcases parts x with _ | _ | _ | ⟨s, m, e, hm⟩
    case finite =>
      simp only [UnpackedFloat.neg, capped]
      split <;> rfl
    all_goals rfl
  calc parts (-x) = capped (UnpackedFloat.neg (parts x)) := parts_ofParts hcanonical
    _ = UnpackedFloat.neg (parts x) := by rw [hcapped, capped_parts]

theorem apply_neg (s : Float.Model.UnpackedFloat.Sign) (n : ℤ) : (-s).apply n = -s.apply n := by
  cases s
  · exact (neg_neg n).symm
  · rfl

theorem sub_eq_add_neg (x y : Float) : x - y = x + -y := by
  have hparts : UnpackedFloat.sub .binary64 (parts x) (parts y) =
      UnpackedFloat.add .binary64 (parts x) (UnpackedFloat.neg (parts y)) := by
    rcases parts x with s | _ | s | ⟨s, m, e, hm⟩ <;>
      rcases parts y with s' | _ | s' | ⟨s', m', e', hm'⟩
    case finite.finite =>
      simp only [UnpackedFloat.sub, UnpackedFloat.add, UnpackedFloat.neg, apply_neg, ← Int.sub_eq_add_neg]
    all_goals rfl
  show ofParts (UnpackedFloat.sub .binary64 (parts x) (parts y)) =
    ofParts (UnpackedFloat.add .binary64 (parts x) (parts (-y)))
  rw [hparts, parts_neg]

theorem abs_add_of_zero {s : Float.Model.UnpackedFloat.Sign} (hz : parts z = .zero s) :
    (x + z).abs = x.abs := by
  show (ofParts (UnpackedFloat.add .binary64 (parts x) (parts z))).abs = x.abs
  rw [hz]
  cases hx : parts x with
  | zero t =>
    have habs : x.abs = ofParts (UnpackedFloat.abs (parts x)) := rfl
    rw [habs, hx]
    cases s <;> cases t <;> rfl
  | _ =>
    have hadd : UnpackedFloat.add .binary64 (parts x) (.zero s) = parts x := by
      rw [hx]
      rfl
    rw [← hx, hadd, ofParts_parts]

theorem zero_add_of_ne (hz : ∀ s, parts z ≠ .zero s) : 0.0 + z = z := by
  have hadd : UnpackedFloat.add .binary64 (.zero .positive) (parts z) = parts z := by
    revert hz
    rcases parts z with s | _ | s | ⟨s, m, e, hm⟩
    case zero => exact fun hz ↦ absurd rfl (hz s)
    all_goals exact fun _ ↦ rfl
  calc 0.0 + z = ofParts (UnpackedFloat.add .binary64 (.zero .positive) (parts z)) := rfl
    _ = z := by rw [hadd, ofParts_parts]

/-- Adding to a positive zero first changes at most the sign of a zero. -/
theorem abs_add_neg (x y : Float) : (x + (0.0 + -y)).abs = (x - y).abs := by
  rw [sub_eq_add_neg]
  by_cases hzero : ∃ s, parts (-y) = .zero s
  · obtain ⟨s, hs⟩ := hzero
    have hsum : parts (0.0 + -y) = .zero .positive := by
      show parts (ofParts (UnpackedFloat.add .binary64 (.zero .positive) (parts (-y)))) = _
      rw [hs]
      cases s <;> rfl
    rw [abs_add_of_zero hsum, abs_add_of_zero hs]
  · rw [zero_add_of_ne (not_exists.1 hzero)]

/-! ### Finite numbers -/

theorem isNaN_unpack {s : Float.Model.UnpackedFloat.Sign} {exponent : BitVec 11} (mantissa : BitVec 52)
    (h : exponent ≠ -1#11) :
    (unpack .binary64 (packComponents .binary64 s exponent mantissa)).isNaN = false := by
  simp only [unpack, unpackExponent_packComponents, unpackMantissa_packComponents]
  rw [if_neg h]
  split
  · split <;> rfl
  · rfl

theorem isNaN_parts_ofParts (hu : u.isNaN = false) : (parts (ofParts u)).isNaN = false := by
  show (unpack .binary64 (pack .binary64 u)).isNaN = false
  rcases u with s | _ | s | ⟨s, m, e, hm⟩
  · rw [pack, unpack_packedInfinity]
    rfl
  · cases hu
  · rw [pack, unpack_packedZero]
    rfl
  · rw [pack_finite]
    split
    · rw [unpack_packedInfinity]
      rfl
    · next hexponent =>
      split
      · refine isNaN_unpack _ fun h ↦ ?_
        have hmax := congrArg BitVec.toNat h
        rw [BitVec.toNat_ofNat] at hmax
        have hones : (-1#11).toNat = 2047 := rfl
        omega
      · exact isNaN_unpack _ (by decide)

theorem isNaN_normalize (m e : ℤ) (s : Float.Model.UnpackedFloat.Sign) :
    (Float.Model.UnpackedFloat.normalize .binary64 m e s).isNaN = false := by
  have hround (s : Float.Model.UnpackedFloat.Sign) (m : ℕ) (e : ℤ) :
      (round .binary64 s m e).isNaN = false := by
    simp only [Float.Model.UnpackedFloat.round, roundWithAccuracy]
    split <;> rfl
  rw [Float.Model.UnpackedFloat.normalize]
  split
  · exact hround ..
  · rfl
  · exact hround ..

/-- Only infinities have no difference. -/
theorem isNaN_sub (hu : u.isFinite = true) (hw : w.isFinite = true) :
    (UnpackedFloat.sub .binary64 u w).isNaN = false := by
  rcases u with _ | _ | s | ⟨s, m, e, hm⟩
  case zero =>
    rcases w with _ | _ | t | _
    case zero => cases s <;> cases t <;> rfl
    case finite => rfl
    all_goals cases hw
  case finite =>
    rcases w with _ | _ | _ | _
    case zero => rfl
    case finite => exact isNaN_normalize ..
    all_goals cases hw
  all_goals cases hu

theorem isNaN_abs (h : (parts x).isNaN = false) : x.abs.isNaN = false := by
  show (parts (ofParts (UnpackedFloat.abs (parts x)))).isNaN = false
  refine isNaN_parts_ofParts ?_
  revert h
  rcases parts x with _ | _ | _ | _ <;> exact id

theorem isNaN_abs_sub (hx : x.isFinite = true) (hy : y.isFinite = true) : (x - y).abs.isNaN = false :=
  isNaN_abs (isNaN_parts_ofParts (isNaN_sub hx hy))

end LiveConstraints.Numbers

import Mathlib
/-!
# The parts of a number

A number is packed into 64 bits, and each operation unpacks its arguments, works on sign, mantissa and
exponent, and packs the result. The operations keep parts canonical: a mantissa has 53 bits, or fewer at
the least exponent. Canonical parts survive packing as they are, unless the exponent is too large; what
is unpacked then is an infinity (`Numbers.parts_ofParts`). Whatever is unpacked is canonical and packs
to the number it came from (`Numbers.canonical_parts`, `Numbers.ofParts_parts`), so a statement on numbers
is one on canonical parts.
-/

open Float.Model (UnpackedFloat Format)
open Float.Model.UnpackedFloat

namespace LiveConstraints.Numbers

/-- The parts of a number. -/
def parts (x : Float) : UnpackedFloat := x.toModel.unpack

/-- The number with given parts. -/
def ofParts (u : UnpackedFloat) : Float := .ofModel (.pack u)

/-- A mantissa has 53 bits, or fewer at the least exponent. -/
def Canonical : UnpackedFloat → Prop
  | .finite _ m e _ => m < 2 ^ 53 ∧ -1074 ≤ e ∧ (2 ^ 52 ≤ m ∨ e = -1074)
  | _ => True

/-- A number whose exponent is too large becomes an infinity. -/
def capped : UnpackedFloat → UnpackedFloat
  | .finite s m e hm => if e ≤ 971 then .finite s m e hm else .infinity s
  | u => u

theorem ofParts_parts (x : Float) : ofParts (parts x) = x := by
  obtain ⟨⟨bits, hvalid⟩⟩ := x
  simp only [ofParts, parts, Float.Model.pack, Float.Model.unpack, pack_unpack_of_valid hvalid]

theorem canonical_parts (x : Float) : Canonical (parts x) := by
  rw [parts, Float.Model.unpack]
  fun_cases unpack with
  | case1 | case2 | case3 => trivial
  | case4 mantissa exponent e sign s hne hzero hpos =>
    -- a subnormal number
    have hlt : mantissa.toNat < 2 ^ 52 := mantissa.isLt
    simp only [Canonical, e, hzero, Format.exponentBias, BitVec.toNat_ofNat]
    omega
  | case5 mantissa exponent e sign s hne hzero =>
    have hlt : mantissa.toNat < 2 ^ 52 := mantissa.isLt
    have hpos : exponent.toNat ≠ 0 := fun h ↦ hzero (BitVec.eq_of_toNat_eq h)
    simp only [Canonical, e, Format.exponentBias, BitVec.toNat_append, BitVec.toNat_ofNat]
    rw [← Nat.shiftLeft_add_eq_or_of_lt mantissa.isLt]
    simp only [Nat.shiftLeft_eq]
    omega

/-! ### Packing and unpacking -/

section Packing

variable {s : Float.Model.UnpackedFloat.Sign} {m : ℕ} {e : ℤ} {hm : 0 < m}

theorem unpack_packedInfinity (s : Float.Model.UnpackedFloat.Sign) :
    unpack .binary64 (packedInfinity .binary64 s) = .infinity s := by
  simp [unpack, packedInfinity]

theorem pack_finite (s : Float.Model.UnpackedFloat.Sign) (m : ℕ) (e : ℤ) (hm : 0 < m) :
    pack .binary64 (.finite s m e hm) =
      if 2 ^ 11 ≤ (e + (1023 : ℕ) + (52 : ℕ)).toNat + 1 then packedInfinity .binary64 s
      else if m.log2 + 1 = 53 then
        packComponents .binary64 s (.ofNat 11 (e + (1023 : ℕ) + (52 : ℕ)).toNat) (.ofNat 52 m)
      else packComponents .binary64 s 0#11 (.ofNat 52 m) :=
  rfl

theorem pack_of_lt (h : 971 < e) :
    pack .binary64 (.finite s m e hm) = packedInfinity .binary64 s := by
  rw [pack_finite, if_pos (by omega)]

theorem pack_of_normal (hmin : -1074 ≤ e) (hmax : e ≤ 971) (hle : 2 ^ 52 ≤ m) (hlt : m < 2 ^ 53) :
    pack .binary64 (.finite s m e hm) =
      packComponents .binary64 s (.ofNat 11 (e + (1023 : ℕ) + (52 : ℕ)).toNat) (.ofNat 52 m) := by
  have hlog : m.log2 = 52 := (Nat.log2_eq_iff (by omega)).2 ⟨hle, hlt⟩
  rw [pack_finite, if_neg (by omega), if_pos (by omega)]

theorem pack_of_subnormal (hlt : m < 2 ^ 52) :
    pack .binary64 (.finite s m (-1074) hm) = packComponents .binary64 s 0#11 (.ofNat 52 m) := by
  have hlog : m.log2 < 52 := (Nat.log2_lt (by omega)).2 hlt
  rw [pack_finite, if_neg (by omega), if_neg (by omega)]

/-- The bit of a normal mantissa that is not stored. -/
theorem toNat_one_append (b : BitVec 52) : (1#1 ++ b).toNat = 2 ^ 52 + b.toNat := by
  rw [BitVec.toNat_append, ← Nat.shiftLeft_add_eq_or_of_lt b.isLt]
  rfl

theorem unpack_normal {exponent : BitVec 11} {mantissa : BitVec 52} (hmin : exponent ≠ 0#11)
    (hmax : exponent ≠ -1#11) : unpack .binary64 (packComponents .binary64 s exponent mantissa) =
      .finite s (2 ^ 52 + mantissa.toNat) (exponent.toNat - (1023 + 52))
        (Nat.add_pos_left (Nat.two_pow_pos 52) _) := by
  simp only [unpack, unpackExponent_packComponents, unpackMantissa_packComponents,
    unpackSign_packComponents, Sign.ofBitVec_toBitVec]
  rw [if_neg hmax, if_neg hmin]
  simp only [toNat_one_append]
  rfl

theorem unpack_subnormal {mantissa : BitVec 52} (hpos : 0 < mantissa.toNat) :
    unpack .binary64 (packComponents .binary64 s 0#11 mantissa) =
      .finite s mantissa.toNat (-1074) hpos := by
  have hne : mantissa ≠ 0#52 := fun h ↦ by simp [h] at hpos
  simp only [unpack, unpackExponent_packComponents, unpackMantissa_packComponents,
    unpackSign_packComponents, Sign.ofBitVec_toBitVec]
  rw [if_neg (by decide), if_pos trivial, dif_neg hne]
  rfl

theorem unpack_pack_normal (hmin : -1074 ≤ e) (hmax : e ≤ 971) (hle : 2 ^ 52 ≤ m) (hlt : m < 2 ^ 53) :
    unpack .binary64 (pack .binary64 (.finite s m e hm)) = .finite s m e hm := by
  have hexponent : (BitVec.ofNat 11 (e + (1023 : ℕ) + (52 : ℕ)).toNat).toNat
      = (e + (1023 : ℕ) + (52 : ℕ)).toNat := by
    rw [BitVec.toNat_ofNat]
    omega
  have hmantissa : 2 ^ 52 + (BitVec.ofNat 52 m).toNat = m := by
    rw [BitVec.toNat_ofNat]
    omega
  have hne : ∀ b : BitVec 11, b.toNat = 0 ∨ b.toNat = 2 ^ 11 - 1 →
      BitVec.ofNat 11 (e + (1023 : ℕ) + (52 : ℕ)).toNat ≠ b := by
    rintro b hb rfl
    omega
  rw [pack_of_normal hmin hmax hle hlt, unpack_normal (hne _ (.inl rfl)) (hne _ (.inr rfl))]
  simp only [hmantissa, hexponent]
  congr 1
  omega

theorem unpack_pack_subnormal (hlt : m < 2 ^ 52) :
    unpack .binary64 (pack .binary64 (.finite s m (-1074) hm)) = .finite s m (-1074) hm := by
  have hmantissa : (BitVec.ofNat 52 m).toNat = m := by
    rw [BitVec.toNat_ofNat]
    omega
  rw [pack_of_subnormal hlt, unpack_subnormal (by omega)]
  simp only [hmantissa]

end Packing

/-- Canonical parts survive packing, unless the exponent is too large. -/
theorem parts_ofParts {u : UnpackedFloat} (hu : Canonical u) : parts (ofParts u) = capped u := by
  show unpack .binary64 (pack .binary64 u) = capped u
  rcases u with s | _ | s | ⟨s, m, e, hm⟩
  · exact unpack_packedInfinity s
  · exact unpack_packedNaN
  · exact unpack_packedZero
  obtain ⟨hlt, hmin, hnormal⟩ := hu
  by_cases hcap : e ≤ 971
  · rw [capped, if_pos hcap]
    by_cases hle : 2 ^ 52 ≤ m
    · exact unpack_pack_normal hmin hcap hle hlt
    · obtain rfl : e = -1074 := by omega
      exact unpack_pack_subnormal (by omega)
  · rw [capped, if_neg hcap, pack_of_lt (by omega), unpack_packedInfinity]

end LiveConstraints.Numbers

/-
Lanewise/Proofs/Lanes/Formula.lean

The lane formulas compute the scalar conversions.

For every pattern, NaNs and infinities included, the lane that a formula leaves is the
scalar result, widened with zeros:

    bf16 x = Bf16.ofF32 x        saturated x, wrapped x = Byte.ofF32 _ x

(`bf16_eq`, `saturated_eq`, `wrapped_eq`).  So the lane lies in the range of the narrow
type, and neither the clamping of a pack nor a truncation changes it
(`clampWord_toUInt32`, `clampByte_toUInt16`).

The bytes need the two orders of clamping and rounding to agree
(`toInt_roundEven_clamped`).  The bounds 0 and 255 are integral, so a pattern is beyond
a bound exactly where its nearest integer is at the bound or beyond it.
-/
import Lanewise.Lanes.Basic
import Lanewise.Lanes.Formula
import Lanewise.Proofs.Narrowing

namespace Lanewise.Lanes

/-! ### Packing keeps what fits -/

theorem clampWord_toUInt32 (w : UInt16) : clampWord w.toUInt32 = w := by
  have hw := w.toNat_lt
  have h31 : ¬ w.toUInt32 >>> 31 = 1 := by
    rw [← UInt32.toNat_inj, toNat_shiftRight_of_lt _ (by decide), UInt16.toNat_toUInt32]
    show ¬ w.toNat / 2 ^ 31 = 1
    omega
  have hmax : ¬ 0xFFFF < w.toUInt32 := by
    rw [UInt32.lt_iff_toNat_lt, UInt16.toNat_toUInt32]
    show ¬ 65535 < w.toNat
    omega
  rw [clampWord, if_neg h31, if_neg hmax, UInt16.toUInt16_toUInt32]

theorem clampByte_toUInt16 (b : UInt8) : clampByte b.toUInt16 = b := by
  have hb := b.toNat_lt
  have h15 : ¬ b.toUInt16 >>> 15 = 1 := by
    rw [← UInt16.toNat_inj, UInt16.toNat_shiftRight, UInt8.toNat_toUInt16,
      Nat.shiftRight_eq_div_pow]
    show ¬ b.toNat / 2 ^ 15 = 1
    omega
  have hmax : ¬ 0xFF < b.toUInt16 := by
    rw [UInt16.lt_iff_toNat_lt, UInt8.toNat_toUInt16]
    show ¬ 255 < b.toNat
    omega
  rw [clampByte, if_neg h15, if_neg hmax, UInt8.toUInt8_toUInt16]

theorem clampWord_of_byte (b : UInt8) : clampWord b.toUInt32 = b.toUInt16 := by
  rw [← UInt8.toUInt32_toUInt16, clampWord_toUInt32]

/-- A byte in a 32-bit lane survives both packs. -/
theorem clampByte_clampWord (b : UInt8) : clampByte (clampWord b.toUInt32) = b := by
  rw [clampWord_of_byte, clampByte_toUInt16]

/-! ### Words -/

theorem unordered_self (x : UInt32) :
    unordered x x = if F32.isNaN x then 0xFFFFFFFF else 0 := by
  rw [unordered, Bool.or_self]

theorem bf16_of_isNaN {x : UInt32} (h : F32.isNaN x = true) : bf16 x = x >>> 16 ||| 0x40 := by
  have hmask : (~~~0xFFFFFFFF : UInt32) = 0 := rfl
  rw [bf16, unordered_self, h]
  simp only [blend, if_true]
  rw [hmask, UInt32.and_zero, UInt32.zero_or]
  exact UInt32.and_neg_one

theorem bf16_of_not_isNaN {x : UInt32} (h : F32.isNaN x = false) :
    bf16 x = (x + (0x7FFF : UInt32) + (x >>> 16 &&& (1 : UInt32))) >>> 16 := by
  rw [bf16, unordered_self, h]
  simp only [blend, Bool.false_eq_true, if_false, UInt32.not_zero, UInt32.and_neg_one,
    UInt32.and_zero, UInt32.or_zero]

theorem toNat_odd (x : UInt32) : (x >>> 16 &&& 1).toNat = x.toNat / 2 ^ 16 % 2 := by
  rw [toNat_and_one, toNat_shiftRight_of_lt x (by decide)]
  rfl

/-- Only NaNs lie so high that the bias could wrap around. -/
theorem biased_lt {x : UInt32} (h : F32.isNaN x = false) :
    x.toNat + 0x7FFF + (x >>> 16 &&& 1).toNat < 2 ^ 32 := by
  have hx := x.toNat_lt
  have hle := F32.toNat_mod_le_of_not_isNaN h
  rw [toNat_odd]
  omega

theorem toNat_biased {x : UInt32} (h : F32.isNaN x = false) :
    (x + (0x7FFF : UInt32) + (x >>> 16 &&& (1 : UInt32))).toNat
      = x.toNat + 0x7FFF + (x >>> 16 &&& 1).toNat := by
  have hlt := biased_lt h
  have hbias : (0x7FFF : UInt32).toNat = 0x7FFF := rfl
  rw [UInt32.toNat_add, UInt32.toNat_add, hbias, Nat.mod_add_mod, Nat.mod_eq_of_lt hlt]

/-- **The bf16 formula leaves the scalar result in the lane**: both are the pattern divided by
`2 ^ 16`, rounded to nearest. -/
theorem bf16_eq (x : UInt32) : bf16 x = (Bf16.ofF32 x).toUInt32 := by
  cases hnan : F32.isNaN x with
  | true =>
    have hx := x.toNat_lt
    have hhigh : (x >>> 16).toUInt16.toUInt32 = x >>> 16 := by
      rw [← UInt32.toNat_inj, UInt16.toNat_toUInt32, UInt32.toNat_toUInt16,
        toNat_shiftRight_of_lt x (by decide)]
      show x.toNat / 2 ^ 16 % 2 ^ 16 = _
      exact Nat.mod_eq_of_lt (by omega)
    rw [bf16_of_isNaN hnan, Bf16.ofF32_of_isNaN hnan, UInt16.toUInt32_or, hhigh]
    rfl
  | false =>
    have hround := add_half_div x.toNat (h := 2 ^ 15) (by norm_num)
    rw [bf16_of_not_isNaN hnan, ← UInt32.toNat_inj, toNat_shiftRight_of_lt _ (by decide),
      toNat_biased hnan, toNat_odd, UInt16.toNat_toUInt32, Bf16.toNat_ofF32 hnan]
    exact hround

/-! ### Bytes -/

theorem isNegative_iff (x : UInt32) : F32.isNegative x = true ↔ 2 ^ 31 ≤ x.toNat := by
  have hx := x.toNat_lt
  rw [F32.isNegative, beq_iff_eq, ← UInt32.toNat_inj, toNat_shiftRight_of_lt _ (by decide)]
  show x.toNat / 2 ^ 31 = 1 ↔ _
  omega

theorem toNat_magnitude (x : UInt32) : (F32.magnitude x).toNat = x.toNat % 2 ^ 31 := by
  rw [F32.magnitude, UInt32.toNat_and]
  exact Nat.and_two_pow_sub_one_eq_mod x.toNat 31

theorem place_eq (x : UInt32) : F32.place x
    = if 2 ^ 31 ≤ x.toNat then -((x.toNat % 2 ^ 31 : Nat) : Int) else (x.toNat % 2 ^ 31 : Nat) := by
  simp only [F32.place, isNegative_iff, toNat_magnitude]

theorem lt_zero_iff (x : UInt32) :
    F32.lt 0 x = true ↔ F32.isNaN x = false ∧ 0 < x.toNat ∧ x.toNat < 2 ^ 31 := by
  have h0 : F32.place 0 = 0 := rfl
  have hn : F32.isNaN 0 = false := rfl
  simp only [F32.lt, h0, hn, place_eq, Bool.not_false, Bool.true_and, Bool.and_eq_true,
    Bool.not_eq_true', decide_eq_true_eq]
  refine and_congr_right fun _ => ?_
  split_ifs <;> omega

theorem lt_float255_iff {x : UInt32} (hn : F32.isNaN x = false) (hx : x.toNat < 2 ^ 31) :
    F32.lt x float255 = true ↔ x.toNat < float255.toNat := by
  have h255 : F32.place float255 = float255.toNat := rfl
  have hn' : F32.isNaN float255 = false := rfl
  simp only [F32.lt, h255, hn, hn', place_eq, Bool.not_false, Bool.true_and, decide_eq_true_eq]
  rw [if_neg (by omega)]
  omega

/-- Which operand the two comparisons leave. -/
theorem clamped_eq (x : UInt32) :
    clamped x = if F32.isNaN x = false ∧ 0 < x.toNat ∧ x.toNat < 2 ^ 31
      then (if x.toNat < float255.toNat then x else float255) else 0 := by
  by_cases hpos : F32.isNaN x = false ∧ 0 < x.toNat ∧ x.toNat < 2 ^ 31
  · have hmax : maxFloat x 0 = x := by rw [maxFloat, if_pos ((lt_zero_iff x).mpr hpos)]
    rw [clamped, hmax, minFloat, if_pos hpos]
    simp only [lt_float255_iff hpos.1 hpos.2.2]
  · have hmax : maxFloat x 0 = 0 := by rw [maxFloat, if_neg (mt (lt_zero_iff x).mp hpos)]
    rw [clamped, hmax, if_neg hpos]
    rfl

theorem toInt_roundEven_zero : F32.toInt (F32.roundEven 0) = 0 := by decide +kernel

theorem toInt_roundEven_float255 : F32.toInt (F32.roundEven float255) = 255 := by decide +kernel

theorem nearestMagnitude_float255 : F32.nearestMagnitude float255 = 255 := by decide +kernel

/-- **Clamping first and rounding after** is rounding first and clamping after. -/
theorem toInt_roundEven_clamped {x : UInt32} (hn : F32.isNaN x = false) :
    F32.toInt (F32.roundEven (clamped x)) = max 0 (min 255 (F32.toInt (F32.roundEven x))) := by
  have h255 : float255.toNat < 2 ^ 31 := by decide
  rw [clamped_eq]
  rcases Nat.lt_or_ge x.toNat (2 ^ 31) with hx | hx
  · have hr : F32.toInt (F32.roundEven x) = F32.nearestMagnitude x := by
      rw [F32.toInt_roundEven, if_neg (by omega), Int.one_mul]
    rcases Nat.eq_zero_or_pos x.toNat with h0 | h0
    · have hx0 : x = 0 := UInt32.toNat_inj.mp h0
      rw [if_neg (by omega), hx0, toInt_roundEven_zero]
      rfl
    · rw [if_pos ⟨hn, h0, hx⟩, hr]
      rcases Nat.lt_or_ge x.toNat float255.toNat with hlt | hge
      · have hle : F32.nearestMagnitude x ≤ F32.nearestMagnitude float255 :=
          F32.nearestMagnitude_mono (by omega)
        rw [nearestMagnitude_float255] at hle
        rw [if_pos hlt, hr]
        omega
      · have hle : F32.nearestMagnitude float255 ≤ F32.nearestMagnitude x :=
          F32.nearestMagnitude_mono (by omega)
        rw [nearestMagnitude_float255] at hle
        rw [if_neg (by omega), toInt_roundEven_float255]
        omega
  · rw [if_neg (by omega), toInt_roundEven_zero, F32.toInt_roundEven, if_pos hx]
    omega

theorem isNaN_clamped (x : UInt32) : F32.isNaN (clamped x) = false := by
  rw [clamped_eq]
  split_ifs with h
  · exact h.1
  · decide +kernel
  · decide +kernel

/-- **The clamping formula leaves the scalar result in the lane.** -/
theorem saturated_eq (x : UInt32) : saturated x = (Byte.ofF32 .saturating x).toUInt32 := by
  rw [saturated, F32.toInt32_roundEven]
  cases hn : F32.isNaN x with
  | true =>
    have hz : clamped x = 0 := by rw [clamped_eq, if_neg (by simp [hn])]
    rw [hz, Byte.ofF32_of_isNaN .saturating hn]
    decide +kernel
  | false =>
    have hclamp := toInt_roundEven_clamped hn
    have hbyte := Byte.toNat_ofF32_saturating hn
    rw [F32.toInt32, isNaN_clamped, hclamp]
    generalize F32.toInt (F32.roundEven x) = n at hbyte
    rw [if_neg (by simp only [Bool.false_or, Bool.or_eq_true, decide_eq_true_eq]; omega),
      ← UInt32.toNat_inj, toNat_word_ofInt, UInt8.toNat_toUInt32]
    omega

/-- **The wrapping formula leaves the scalar result in the lane.** -/
theorem wrapped_eq (x : UInt32) : wrapped x = (Byte.ofF32 .narrowing x).toUInt32 := by
  rw [wrapped, F32.toInt32_roundEven, Byte.ofF32, F32.toInt32, F32.isNaN_roundEven]
  cases hn : F32.isNaN x with
  | true =>
    rw [Bool.true_or, Bool.true_or, if_pos rfl, if_pos rfl]
    decide +kernel
  | false =>
    generalize F32.toInt (F32.roundEven x) = n
    simp only [Bool.false_or, Bool.or_eq_true, decide_eq_true_eq, Bool.false_eq_true, if_false]
    rw [← UInt32.toNat_inj, toNat_and_byte, UInt8.toNat_toUInt32]
    by_cases hout : n < -0x80000000 ∨ 0x7FFFFFFF < n
    · rw [if_pos hout, if_pos (by omega)]
      rfl
    · rw [if_neg hout, toNat_word_ofInt]
      split_ifs with hbig
      · -- the least integer is in range, and its low byte is zero
        have hmin : n = -0x80000000 := by omega
        rw [hmin]
        rfl
      · rw [toNat_byte_ofInt]
        omega

theorem toUInt8_toInt32_clamped (x : UInt32) :
    (F32.toInt32 (clamped x)).toUInt8 = Byte.ofF32 .saturating x := by
  rw [← F32.toInt32_roundEven, ← saturated, saturated_eq, UInt8.toUInt8_toUInt32]

theorem toUInt8_toInt32 (x : UInt32) : (F32.toInt32 x).toUInt8 = Byte.ofF32 .narrowing x := by
  have hlow : (wrapped x).toUInt8 = (F32.toInt32 x).toUInt8 := by
    rw [wrapped, F32.toInt32_roundEven, UInt32.toUInt8_and]
    exact UInt8.and_neg_one
  rw [← hlow, wrapped_eq, UInt8.toUInt8_toUInt32]

/-- A byte is not negative as a 32-bit integer. -/
theorem ofInt32_toUInt32 (b : UInt8) : F32.ofInt32 b.toUInt32 = Byte.toF32 b := by
  have hb := b.toNat_lt
  have h31 : ¬ b.toUInt32 >>> 31 = 1 := by
    rw [← UInt32.toNat_inj, toNat_shiftRight_of_lt _ (by decide), UInt8.toNat_toUInt32]
    show ¬ b.toNat / 2 ^ 31 = 1
    omega
  rw [F32.ofInt32, if_neg h31, UInt8.toNat_toUInt32, Byte.toF32]

end Lanewise.Lanes

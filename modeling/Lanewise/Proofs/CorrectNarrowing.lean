/-
Lanewise/Proofs/CorrectNarrowing.lean

Narrowing is correct rounding.

Both narrowings divide a count by a power of two (`Counted`).  Rounding to binary16 divides
the significand where the result is normal, and all units of the number where it is not;
rounding to the upper half divides the significand everywhere.  The magnitude of the result
is the rounded one, cut off at the infinities, and so the result is the nearest pattern:
`F16.half_correctly_rounded` and `Bf16.upper_half_correctly_rounded`.
-/
import Lanewise.Proofs.CorrectRounding
import Lanewise.Proofs.Wrapping

namespace Lanewise

/-! ### Single precision -/

namespace F32

theorem exponent_lt_of_isFinite {x : UInt32} (h : Format.f32.IsFinite x) : exponent x < 255 := by
  have hlt : x.toNat % 2 ^ 31 < 255 * 2 ^ 23 := (Format.f32_fits.isFinite_iff x).mp h
  rw [exponent_eq]
  omega

theorem exponent_of_isInfinite {x : UInt32} (h : Format.f32.isInfinite x = true) :
    exponent x = 255 ∧ x.toNat % 2 ^ 23 = 0 := by
  have htop : x.toNat % 2 ^ 31 = 255 * 2 ^ 23 := (Format.f32_fits.isInfinite_iff x).mp h
  rw [exponent_eq]
  omega

theorem not_isNaN_of_isInfinite {x : UInt32} (h : Format.f32.isInfinite x = true) :
    isNaN x = false :=
  Format.f32_fits.not_isNaN_of_isInfinite h

/-- Apart from subnormal patterns, the units are the significand in its place. -/
theorem units_magnitude_of_one_le {x : UInt32} (h : 1 ≤ exponent x) :
    Format.f32.units (Format.f32.magnitude x) = significand x * 2 ^ (exponent x - 1) := by
  have hnormal : ¬ (Format.f32.unpack x).exponent = 0 := by
    rw [← UInt32.toNat_inj]
    exact Nat.one_le_iff_ne_zero.mp h
  have hcount : Format.f32.count x = significand x := by
    rw [Format.count, if_neg hnormal, Nat.add_comm]
    rfl
  have hbinade : Format.f32.binade x = exponent x := Nat.max_eq_right h
  rw [Format.f32_fits.units_magnitude, hcount, hbinade]

theorem units_magnitude_lt {x : UInt32} {b : Nat} (h : exponent x ≤ b + 1) :
    Format.f32.units (Format.f32.magnitude x) < 2 ^ (b + 24) := by
  have hcount : Format.f32.count x < 2 ^ 24 := Format.f32_fits.count_lt x
  have hbinade : Format.f32.binade x - 1 ≤ b := by
    have hmax : Format.f32.binade x = max 1 (exponent x) := rfl
    omega
  rw [Format.f32_fits.units_magnitude, Nat.add_comm b, pow_add]
  exact Nat.mul_lt_mul_of_lt_of_le hcount (Nat.pow_le_pow_right Nat.two_pos hbinade)
    (by positivity)

theorem abs_value_eq (x : UInt32) :
    |value x| = Format.f32.units (Format.f32.magnitude x) * Format.f32.least :=
  Format.f32_fits.abs_value x

end F32

/-! ### Patterns of 16 bits -/

namespace Format

variable {fmt : Format} {x : UInt32} {h : UInt16}

theorem Fits.places_eq (hfits : fmt.Fits) (hwidth : fmt.width.toNat = 16) :
    fmt.exponentBits.toNat + fmt.mantissaBits.toNat = 15 := by
  have hsum := hfits.width_eq
  omega

theorem Fits.top_lt_of_width (hfits : fmt.Fits) (hwidth : fmt.width.toNat = 16) :
    fmt.top < 2 ^ 15 := by
  rw [← hfits.places_eq hwidth]
  exact fmt.top_lt

/-- The sign of a single-precision pattern, and a magnitude below it. -/
theorem fields_of_toNat (hfits : fmt.Fits) (hwidth : fmt.width.toNat = 16) {m : Nat}
    (hm : m < 2 ^ 15) (hh : h.toNat = x.toNat / 2 ^ 31 * 2 ^ 15 + m) :
    (fmt.unpack h.toUInt32).sign = (f32.unpack x).sign ∧ fmt.magnitude h.toUInt32 = m := by
  have hx := x.toNat_lt
  have hplaces := hfits.places_eq hwidth
  have hsign := hfits.toNat_sign h.toUInt32
  rw [hplaces, UInt16.toNat_toUInt32] at hsign
  rw [← UInt32.toNat_inj, hsign, F32.toNat_sign, magnitude, hplaces, UInt16.toNat_toUInt32]
  omega

/-- A narrowing is correct if it rounds the right count. -/
theorem Counted.correct_of_toNat {e n d : Nat} (c : fmt.Counted |F32.value x| e n d)
    (hfits : fmt.Fits) (hwidth : fmt.width.toNat = 16) (hbits : 2 ≤ fmt.exponentBits.toNat)
    (hh : h.toNat = x.toNat / 2 ^ 31 * 2 ^ 15 + min fmt.top (fmt.rounded e n d)) :
    (fmt.unpack h.toUInt32).sign = (f32.unpack x).sign ∧
      (fmt.overflow ≤ |F32.value x| → fmt.isInfinite h.toUInt32 = true) ∧
      (|F32.value x| < fmt.overflow → fmt.IsNearest (F32.value x) h) := by
  have htop := hfits.top_lt_of_width hwidth
  obtain ⟨hsign, hmagnitude⟩ := fields_of_toNat hfits hwidth (by omega) hh
  refine ⟨hsign, c.correct hfits hbits ?_ hmagnitude⟩
  rw [signum_congr hsign]
  exact f32_fits.value_eq_signum_mul_abs x

theorem isInfinite_of_toNat (hfits : fmt.Fits) (hwidth : fmt.width.toNat = 16)
    (hh : h.toNat = x.toNat / 2 ^ 31 * 2 ^ 15 + fmt.top) :
    fmt.isInfinite h.toUInt32 = true ∧ (fmt.unpack h.toUInt32).sign = (f32.unpack x).sign := by
  obtain ⟨hsign, hmagnitude⟩ := fields_of_toNat hfits hwidth (hfits.top_lt_of_width hwidth) hh
  exact ⟨(hfits.isInfinite_iff _).mpr hmagnitude, hsign⟩

end Format

/-! ### Half precision -/

namespace F16

theorem least_eq : Format.f16.least = 2 ^ 125 * Format.f32.least := by
  show (2 : ℚ) ^ (1 - 15 - 10 : Int) = 2 ^ 125 * 2 ^ (1 - 127 - 23 : Int)
  norm_num

theorem step_eq (e : Nat) : Format.f16.step e = 2 ^ (e - 1) * (2 ^ 125 * Format.f32.least) := by
  rw [Format.step, least_eq]

theorem overflow_eq : Format.f16.overflow = 65520 := by
  show (2 * (2 ^ 10 : Nat) - 1 / 2) * ((2 : ℚ) ^ (30 - 1) * 2 ^ (1 - 15 - 10 : Int)) = 65520
  norm_num

/-- Below the normal range, numbers are counted in the spacing of the subnormal ones. -/
theorem counted_of_small {x : UInt32} (h : F32.exponent x < 113) :
    Format.f16.Counted |F32.value x| 1 (Format.f32.units (Format.f32.magnitude x)) (2 ^ 125) where
  one_le := le_rfl
  pos := by positivity
  lead := .inr rfl
  lt := F32.units_magnitude_lt (b := 112) (by omega)
  eq := by
    rw [F32.abs_value_eq, step_eq, div_mul_eq_mul_div, eq_div_iff (by positivity)]
    push_cast
    ring

theorem counted_of_normal {x : UInt32} (h : 113 ≤ F32.exponent x) :
    Format.f16.Counted |F32.value x| (F32.exponent x - 112) (F32.significand x) (2 ^ 13) where
  one_le := by omega
  pos := by positivity
  lead := .inl (F32.le_significand x)
  lt := F32.significand_lt x
  eq := by
    have hplace : (2 : ℚ) ^ (F32.exponent x - 1) * 2 ^ 13
        = 2 ^ (F32.exponent x - 112 - 1) * 2 ^ 125 := by
      rw [← pow_add, ← pow_add]
      congr 1
      omega
    rw [F32.abs_value_eq, F32.units_magnitude_of_one_le (by omega), step_eq, div_mul_eq_mul_div,
      eq_div_iff (by positivity)]
    push_cast
    linear_combination (F32.significand x * Format.f32.least) * hplace

theorem toNat_ofF32_eq_rounded_of_small {x : UInt32} (h : F32.exponent x < 113) :
    (ofF32 x).toNat = x.toNat / 2 ^ 31 * 2 ^ 15 + min Format.f16.top
      (Format.f16.rounded 1 (Format.f32.units (Format.f32.magnitude x)) (2 ^ 125)) := by
  have hcount : divNearestEven (Format.f32.units (Format.f32.magnitude x)) (2 ^ 125) ≤ 2 * 2 ^ 10 :=
    (counted_of_small h).divNearestEven_le
  have hresult : (ofF32 x).toNat = x.toNat / 2 ^ 31 * 2 ^ 15
      + divNearestEven (Format.f32.units (Format.f32.magnitude x)) (2 ^ 125) := by
    rcases Nat.lt_or_ge 101 (F32.exponent x) with hlo | hlo
    · have hdivisor : (2 : Nat) ^ 125 = 2 ^ (F32.exponent x - 1) * 2 ^ (126 - F32.exponent x) := by
        rw [← pow_add]
        congr 1
        omega
      rw [toNat_ofF32_of_subnormal hlo h, F32.units_magnitude_of_one_le (by omega), hdivisor,
        Nat.mul_comm (F32.significand x), divNearestEven_mul_mul (by positivity)]
    · have hunits := F32.units_magnitude_lt (x := x) (b := 100) (by omega)
      rw [toNat_ofF32_of_underflow hlo, divNearestEven_eq_zero (by omega), Nat.add_zero]
  show _ = _ + min (31 * 2 ^ 10) ((1 - 1) * 2 ^ 10 + _)
  omega

theorem toNat_ofF32_eq_rounded_of_normal {x : UInt32} (hlo : 113 ≤ F32.exponent x)
    (hhi : F32.exponent x < 255) :
    (ofF32 x).toNat = x.toNat / 2 ^ 31 * 2 ^ 15 + min Format.f16.top
      (Format.f16.rounded (F32.exponent x - 112) (F32.significand x) (2 ^ 13)) := by
  have hexponent := F32.exponent_eq x
  -- the exponent's part of the pattern is an even number of units
  have hparts : x.toNat % 2 ^ 31 - 112 * 2 ^ 23
      = (F32.exponent x - 112 - 1) * 2 ^ 10 * 2 ^ 13 + F32.significand x := by
    rw [F32.significand_eq]
    omega
  rw [toNat_ofF32_of_normal hlo hhi, hparts, divNearestEven_add_mul (by norm_num) (by omega)]
  rfl

/-- **Rounding to binary16 is correct.**  Of a finite number the sign is kept; from 65520 on it
becomes an infinity, and below it the nearest number, ties to even.  Infinities are kept.  On
no pattern is anything lost to the width of the words. -/
theorem half_correctly_rounded (x : UInt32) :
    (Format.f32.IsFinite x →
      (Format.f16.unpack (ofF32 x).toUInt32).sign = (Format.f32.unpack x).sign ∧
      (65520 ≤ |F32.value x| → Format.f16.isInfinite (ofF32 x).toUInt32 = true) ∧
      (|F32.value x| < 65520 → Format.f16.IsNearest (F32.value x) (ofF32 x))) ∧
    (Format.f32.isInfinite x = true → Format.f16.isInfinite (ofF32 x).toUInt32 = true ∧
      (Format.f16.unpack (ofF32 x).toUInt32).sign = (Format.f32.unpack x).sign) ∧
    ofF32By .wrapping x = ofF32 x ∧ ofF32By .exact x = some (ofF32 x) := by
  have hwidth : Format.f16.width.toNat = 16 := rfl
  have hbits : 2 ≤ Format.f16.exponentBits.toNat := by decide
  refine ⟨fun hfinite => ?_, fun hinfinite => ?_, ofF32By_wrapping x, ofF32By_exact x⟩
  · rw [← overflow_eq]
    rcases Nat.lt_or_ge (F32.exponent x) 113 with hlo | hlo
    · exact (counted_of_small hlo).correct_of_toNat Format.f16_fits hwidth hbits
        (toNat_ofF32_eq_rounded_of_small hlo)
    · exact (counted_of_normal hlo).correct_of_toNat Format.f16_fits hwidth hbits
        (toNat_ofF32_eq_rounded_of_normal hlo (F32.exponent_lt_of_isFinite hfinite))
  · obtain ⟨hexponent, hmantissa⟩ := F32.exponent_of_isInfinite hinfinite
    refine Format.isInfinite_of_toNat Format.f16_fits hwidth ?_
    rw [toNat_ofF32_of_special hexponent, if_pos hmantissa, Nat.add_zero]
    rfl

/-- One third has a nearest number, 65520 has none, and a negative infinity is one already. -/
theorem half_correctly_rounded_cases :
    (Format.f32.IsFinite 0x3EAAAAAB ∧ |F32.value 0x3EAAAAAB| < 65520 ∧
      Format.f16.IsNearest (F32.value 0x3EAAAAAB) 0x3555) ∧
    (Format.f32.IsFinite 0x477FF000 ∧ 65520 ≤ |F32.value 0x477FF000| ∧
      Format.f16.isInfinite (ofF32 0x477FF000).toUInt32 = true) ∧
    (Format.f32.isInfinite 0xFF800000 = true ∧
      Format.f16.isInfinite (ofF32 0xFF800000).toUInt32 = true) := by
  have hthird : Format.f32.IsFinite 0x3EAAAAAB := by decide
  have hless : |F32.value 0x3EAAAAAB| < 65520 := by decide +kernel
  have hresult : ofF32 0x3EAAAAAB = 0x3555 := by decide
  have hgreat : Format.f32.IsFinite 0x477FF000 := by decide
  have hover : 65520 ≤ |F32.value 0x477FF000| := by decide +kernel
  have hinfinite : Format.f32.isInfinite 0xFF800000 = true := by decide
  have hnearest := ((half_correctly_rounded 0x3EAAAAAB).1 hthird).2.2 hless
  rw [hresult] at hnearest
  exact ⟨⟨hthird, hless, hnearest⟩,
    ⟨hgreat, hover, ((half_correctly_rounded 0x477FF000).1 hgreat).2.1 hover⟩,
    ⟨hinfinite, ((half_correctly_rounded 0xFF800000).2.1 hinfinite).1⟩⟩

end F16

/-! ### The upper half -/

namespace Bf16

theorem least_eq : Format.bf16.least = 2 ^ 16 * Format.f32.least := by
  show (2 : ℚ) ^ (1 - 127 - 7 : Int) = 2 ^ 16 * 2 ^ (1 - 127 - 23 : Int)
  norm_num

theorem step_eq (e : Nat) : Format.bf16.step e = 2 ^ (e - 1) * (2 ^ 16 * Format.f32.least) := by
  rw [Format.step, least_eq]

theorem overflow_eq : Format.bf16.overflow = (2 - 2 ^ (-8 : Int)) * 2 ^ 127 := by
  show (2 * (2 ^ 7 : Nat) - 1 / 2) * ((2 : ℚ) ^ (254 - 1) * 2 ^ (1 - 127 - 7 : Int)) = _
  norm_num

theorem counted (x : UInt32) :
    Format.bf16.Counted |F32.value x| (Format.f32.binade x) (Format.f32.count x) (2 ^ 16) where
  one_le := Format.f32.one_le_binade x
  pos := by positivity
  lead := Format.f32.le_count_or x
  lt := Format.f32_fits.count_lt x
  eq := by
    rw [F32.abs_value_eq, Format.f32_fits.units_magnitude, step_eq, div_mul_eq_mul_div,
      eq_div_iff (by positivity)]
    push_cast
    ring

/-- What lies above the significand is an even number of units. -/
theorem rounded_eq (x : UInt32) :
    Format.bf16.rounded (Format.f32.binade x) (Format.f32.count x) (2 ^ 16)
      = divNearestEven (x.toNat % 2 ^ 31) (2 ^ 16) := by
  have hmagnitude : x.toNat % 2 ^ 31 = (Format.f32.binade x - 1) * 2 ^ 23 + Format.f32.count x :=
    Format.f32_fits.magnitude_eq_count x
  have hparts : x.toNat % 2 ^ 31
      = (Format.f32.binade x - 1) * 2 ^ 7 * 2 ^ 16 + Format.f32.count x := by
    rw [hmagnitude]
    ring
  have hbits : Format.bf16.mantissaBits.toNat = 7 := rfl
  rw [Format.rounded, hbits, hparts]
  exact (divNearestEven_add_mul (by norm_num) (by omega)).symm

theorem toNat_ofF32_eq_rounded {x : UInt32} (h : F32.isNaN x = false) :
    (ofF32 x).toNat = x.toNat / 2 ^ 31 * 2 ^ 15 + min Format.bf16.top
      (Format.bf16.rounded (Format.f32.binade x) (Format.f32.count x) (2 ^ 16)) := by
  have hle := F32.toNat_mod_le_of_not_isNaN h
  have htop : divNearestEven (x.toNat % 2 ^ 31) (2 ^ 16) ≤ Format.bf16.top :=
    divNearestEven_le (by norm_num) (hle.trans (by decide))
  have hparts : x.toNat = x.toNat / 2 ^ 31 * 2 ^ 15 * 2 ^ 16 + x.toNat % 2 ^ 31 := by omega
  rw [toNat_ofF32 h, rounded_eq, Nat.min_eq_right htop]
  conv_lhs => rw [hparts]
  rw [divNearestEven_add_mul (by norm_num) (by omega)]

/-- What is added to the upper half: one if the lower half is more than one half of its last
place, or one half and the upper half is odd. -/
def increment (x : UInt32) : UInt32 :=
  if (0x8000 : UInt32) - (x >>> 16 &&& 1) < x &&& 0xFFFF then 1 else 0

theorem ofF32_eq_add_increment {x : UInt32} (h : F32.isNaN x = false) :
    ofF32 x = (x >>> 16 + increment x).toUInt16 := by
  have hnan : Format.f32.isNaN x = false := h
  simp only [ofF32, hnan, Bool.false_eq_true, if_false]
  rfl

/-- The greatest upper half of a pattern that is no NaN is that of the infinities, so there is
room for one more. -/
theorem toNat_add_increment_lt {x : UInt32} (h : F32.isNaN x = false) :
    (x >>> 16).toNat % 2 ^ 15 + (increment x).toNat < 2 ^ 15 := by
  have hle := F32.toNat_mod_le_of_not_isNaN h
  have hone : (increment x).toNat ≤ 1 := by
    rw [increment]
    split_ifs
    · exact le_rfl
    · exact Nat.zero_le 1
  rw [toNat_shiftRight_of_lt x (by decide)]
  show x.toNat / 2 ^ 16 % 2 ^ 15 + _ < _
  omega

/-- **Rounding to the upper half is correct.**  Of a finite number the sign is kept; from half a
step past the greatest one on it becomes an infinity, and below it the nearest number, ties to
even.  Infinities are kept.  The increment carries neither into the sign nor past it. -/
theorem upper_half_correctly_rounded (x : UInt32) :
    (Format.f32.IsFinite x →
      (Format.bf16.unpack (ofF32 x).toUInt32).sign = (Format.f32.unpack x).sign ∧
      ((2 - 2 ^ (-8 : Int)) * 2 ^ 127 ≤ |F32.value x| →
        Format.bf16.isInfinite (ofF32 x).toUInt32 = true) ∧
      (|F32.value x| < (2 - 2 ^ (-8 : Int)) * 2 ^ 127 →
        Format.bf16.IsNearest (F32.value x) (ofF32 x))) ∧
    (Format.f32.isInfinite x = true → Format.bf16.isInfinite (ofF32 x).toUInt32 = true ∧
      (Format.bf16.unpack (ofF32 x).toUInt32).sign = (Format.f32.unpack x).sign) ∧
    (F32.isNaN x = false → ofF32 x = (x >>> 16 + increment x).toUInt16 ∧
      (x >>> 16).toNat % 2 ^ 15 + (increment x).toNat < 2 ^ 15 ∧
      (x >>> 16).toNat + (increment x).toNat < 2 ^ 16) := by
  have hwidth : Format.bf16.width.toNat = 16 := rfl
  refine ⟨fun hfinite => ?_, fun hinfinite => ?_, fun hnan => ?_⟩
  · rw [← overflow_eq]
    exact (counted x).correct_of_toNat Format.bf16_fits hwidth (by decide)
      (toNat_ofF32_eq_rounded hfinite.1)
  · have htop : x.toNat % 2 ^ 31 = 255 * 2 ^ 23 := (Format.f32_fits.isInfinite_iff x).mp hinfinite
    refine Format.isInfinite_of_toNat Format.bf16_fits hwidth ?_
    rw [toNat_ofF32_eq_rounded (F32.not_isNaN_of_isInfinite hinfinite), rounded_eq, htop]
    rfl
  · have hcarry := toNat_add_increment_lt hnan
    have hhigh : (x >>> 16).toNat < 2 ^ 16 := by
      have hx := x.toNat_lt
      rw [toNat_shiftRight_of_lt x (by decide)]
      show x.toNat / 2 ^ 16 < 2 ^ 16
      omega
    exact ⟨ofF32_eq_add_increment hnan, hcarry, by omega⟩

/-- A tie goes to the even number, half a step past the greatest one is too far, and a negative
infinity is one already. -/
theorem upper_half_correctly_rounded_cases :
    (Format.f32.IsFinite 0x3F808000 ∧ |F32.value 0x3F808000| < (2 - 2 ^ (-8 : Int)) * 2 ^ 127 ∧
      Format.bf16.IsNearest (F32.value 0x3F808000) 0x3F80) ∧
    (Format.f32.IsFinite 0x7F7F8000 ∧ (2 - 2 ^ (-8 : Int)) * 2 ^ 127 ≤ |F32.value 0x7F7F8000| ∧
      Format.bf16.isInfinite (ofF32 0x7F7F8000).toUInt32 = true) ∧
    (Format.f32.isInfinite 0xFF800000 = true ∧
      Format.bf16.isInfinite (ofF32 0xFF800000).toUInt32 = true) ∧
    (F32.isNaN 0x7F7F8000 = false ∧
      ((0x7F7F8000 : UInt32) >>> 16).toNat % 2 ^ 15 + (increment 0x7F7F8000).toNat < 2 ^ 15) := by
  have htie : Format.f32.IsFinite 0x3F808000 := by decide
  have hless : |F32.value 0x3F808000| < (2 - 2 ^ (-8 : Int)) * 2 ^ 127 := by decide +kernel
  have hresult : ofF32 0x3F808000 = 0x3F80 := by decide
  have hgreat : Format.f32.IsFinite 0x7F7F8000 := by decide
  have hover : (2 - 2 ^ (-8 : Int)) * 2 ^ 127 ≤ |F32.value 0x7F7F8000| := by decide +kernel
  have hinfinite : Format.f32.isInfinite 0xFF800000 = true := by decide
  have hnearest := ((upper_half_correctly_rounded 0x3F808000).1 htie).2.2 hless
  rw [hresult] at hnearest
  exact ⟨⟨htie, hless, hnearest⟩,
    ⟨hgreat, hover, ((upper_half_correctly_rounded 0x7F7F8000).1 hgreat).2.1 hover⟩,
    ⟨hinfinite, ((upper_half_correctly_rounded 0xFF800000).2.1 hinfinite).1⟩,
    ⟨hgreat.1, ((upper_half_correctly_rounded 0x7F7F8000).2.2 hgreat.1).2.1⟩⟩

end Bf16

end Lanewise

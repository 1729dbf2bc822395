/-
Lanewise/Proofs/Bytes.lean

The two overflow rules of the bytes.

Both round to the nearest integer `r`, ties to even, and differ in what they make of it:

    saturating    min (max r 0) 255
    narrowing     r mod 256

(`overflow_rules`).  The integer is the one that rounding the pattern and reading it gives
(`F32.isNearestInt_toInt_roundEven`): all units of the number are divided by the number of
units in one, `2 ^ 149`.
-/
import Lanewise.Proofs.CorrectNarrowing

namespace Lanewise

/-! ### The nearest integer -/

/-- `r` is the integer nearest to `v`, and even where another one is as near. -/
structure IsNearestInt (v : ℚ) (r : Int) : Prop where
  le : ∀ k : Int, |v - r| ≤ |v - k|
  even : ∀ k : Int, k ≠ r → |v - k| = |v - r| → r % 2 = 0

/-- Only one integer is the nearest one: of two, both would be even, and the one between them
nearer. -/
theorem IsNearestInt.unique {v : ℚ} {r s : Int} (hr : IsNearestInt v r) (hs : IsNearestInt v s) :
    r = s := by
  by_contra hne
  have htie : |v - s| = |v - r| := le_antisymm (hs.le r) (hr.le s)
  have hreven := hr.even s (Ne.symm hne) htie
  have hseven := hs.even r hne htie.symm
  -- the number lies half way between the two
  have hmiddle : v = (r + s) / 2 := by
    rcases abs_eq_abs.mp htie with heq | heq
    · exact absurd (by exact_mod_cast (by linarith : (r : ℚ) = s)) hne
    · linarith
  obtain ⟨i, rfl⟩ : ∃ i, r = 2 * i := ⟨r / 2, by omega⟩
  obtain ⟨j, rfl⟩ : ∃ j, s = 2 * j := ⟨s / 2, by omega⟩
  have hbetween := hr.le (i + j)
  have hzero : v - ((i + j : Int) : ℚ) = 0 := by
    rw [hmiddle]
    push_cast
    ring
  rw [hzero, abs_zero] at hbetween
  have hself := abs_eq_zero.mp (le_antisymm hbetween (abs_nonneg _))
  refine hne ?_
  have : ((2 * i : Int) : ℚ) = (2 * j : Int) := by linarith
  exact_mod_cast this

/-- The nearest integer of an absolute value, with the sign put back. -/
theorem isNearestInt_sign_mul {n d : Nat} (hd : 0 < d) {s : Int} (hs : s = 1 ∨ s = -1) :
    IsNearestInt (s * ((n : ℚ) / d)) (s * divNearestEven n d) := by
  have habs : ∀ k : Int, |(s : ℚ) * ((n : ℚ) / d) - k| = |(n : ℚ) / d - (s * k : Int)| := by
    intro k
    rcases hs with rfl | rfl
    · push_cast
      rw [one_mul, one_mul]
    · push_cast
      rw [← abs_neg]
      ring_nf
  have hself : s * (s * divNearestEven n d) = divNearestEven n d := by
    rcases hs with rfl | rfl <;> ring
  constructor
  · intro k
    rw [habs, habs, hself]
    exact_mod_cast abs_sub_divNearestEven_le n hd (s * k)
  · intro k hk htie
    rw [habs, habs, hself, Int.cast_natCast] at htie
    have hother : s * k ≠ divNearestEven n d := by
      intro heq
      apply hk
      rw [← heq]
      rcases hs with rfl | rfl <;> ring
    rcases abs_sub_divNearestEven hd hother with hlt | ⟨-, heven⟩
    · exact absurd htie hlt.ne'
    · rcases hs with rfl | rfl <;> omega

namespace F32

/-- The nearest integer from the units of the least subnormal number. -/
theorem nearestMagnitude_eq_units (x : UInt32) :
    nearestMagnitude x = divNearestEven (Format.f32.units (Format.f32.magnitude x)) (2 ^ 149) := by
  rcases Nat.lt_or_ge (exponent x) 126 with hlo | hlo
  · have hunits := units_magnitude_lt (x := x) (b := 124) (by omega)
    rw [nearestMagnitude_of_lt hlo, divNearestEven_eq_zero (by omega)]
  · have hplace : 2 ^ (exponent x - 1)
        = 2 ^ (exponent x - 150) * 2 ^ (min 149 (exponent x - 1)) := by
      rw [← pow_add]
      congr 1
      omega
    have hdivisor : (2 : Nat) ^ 149 = 2 ^ (min 149 (exponent x - 1)) * 2 ^ (150 - exponent x) := by
      rw [← pow_add]
      congr 1
      omega
    rw [nearestMagnitude, units_magnitude_of_one_le (by omega), hplace, hdivisor, ← Nat.mul_assoc,
      Nat.mul_comm _ (2 ^ (min 149 (exponent x - 1))), divNearestEven_mul_mul (by positivity)]

theorem abs_value_eq_div (x : UInt32) :
    |value x| = (Format.f32.units (Format.f32.magnitude x) : ℚ) / (2 ^ 149 : Nat) := by
  rw [abs_value_eq, div_eq_mul_inv]
  push_cast
  rfl

/-- **Rounding a pattern and reading it gives the nearest integer.** -/
theorem isNearestInt_toInt_roundEven (x : UInt32) :
    IsNearestInt (value x) (toInt (roundEven x)) := by
  have hsign : Format.f32.signum x = ((if 2 ^ 31 ≤ x.toNat then -1 else 1 : Int) : ℚ) := by
    simp only [Format.signum, sign_eq_one_iff]
    split_ifs <;> norm_num
  rw [value, Format.f32_fits.value_eq_signum_mul_abs, ← value, abs_value_eq_div, hsign,
    toInt_roundEven, nearestMagnitude_eq_units]
  refine isNearestInt_sign_mul (by positivity) ?_
  split_ifs
  · exact .inr rfl
  · exact .inl rfl

theorem le_nearestMagnitude_of_le_abs {x : UInt32} (h : 2 ^ 31 ≤ |value x|) :
    2 ^ 31 ≤ nearestMagnitude x := by
  rw [abs_value_eq_div, le_div_iff₀ (by positivity)] at h
  rw [nearestMagnitude_eq_units]
  refine le_divNearestEven (by positivity) ?_
  exact_mod_cast h

theorem le_nearestMagnitude_of_isInfinite {x : UInt32} (h : Format.f32.isInfinite x = true) :
    2 ^ 31 ≤ nearestMagnitude x := by
  have hexponent := (exponent_of_isInfinite h).1
  have hsignificand := le_significand x
  rw [nearestMagnitude_of_le (by omega), hexponent]
  omega

end F32

/-! ### The rules -/

namespace Byte

theorem ofF32_narrowing_of_great {x : UInt32} (hnan : F32.isNaN x = false)
    (h : 2 ^ 31 ≤ F32.nearestMagnitude x) : ofF32 .narrowing x = 0 := by
  have hnarrowing := toNat_ofF32_narrowing hnan
  have hlow := F32.dvd_nearestMagnitude h
  rw [F32.toInt_roundEven] at hnarrowing
  rw [← UInt8.toNat_inj]
  show (ofF32 .narrowing x).toNat = 0
  split_ifs at hnarrowing <;> omega

/-- **The overflow rules.**  A finite number has one nearest integer; saturating clamps it to
the bytes, narrowing takes its remainder modulo 256, and they agree where it is a byte.  From
`2 ^ 31` on the remainder is 0.  NaNs become 0 and infinities the nearest byte or 0. -/
theorem overflow_rules (x : UInt32) :
    (Format.f32.IsFinite x →
      (∃ r : Int, IsNearestInt (F32.value x) r ∧ (∀ s, IsNearestInt (F32.value x) s → s = r) ∧
        ((ofF32 .saturating x).toNat : Int) = min (max r 0) 255 ∧
        ((ofF32 .narrowing x).toNat : Int) = r % 256 ∧
        (0 ≤ r → r ≤ 255 → ofF32 .saturating x = ofF32 .narrowing x)) ∧
      (2 ^ 31 ≤ |F32.value x| → ofF32 .narrowing x = 0)) ∧
    (F32.isNaN x = true → ∀ overflow, ofF32 overflow x = 0) ∧
    (Format.f32.isInfinite x = true →
      ofF32 .saturating x = (if (Format.f32.unpack x).sign = 1 then 0 else 255) ∧
      ofF32 .narrowing x = 0) := by
  refine ⟨fun hfinite => ⟨?_, fun hgreat => ?_⟩, fun hnan overflow => ofF32_of_isNaN overflow hnan,
    fun hinfinite => ?_⟩
  · have hsaturating := toNat_ofF32_saturating hfinite.1
    have hnarrowing := toNat_ofF32_narrowing hfinite.1
    have hnearest := F32.isNearestInt_toInt_roundEven x
    refine ⟨F32.toInt (F32.roundEven x), hnearest, fun s hs => hs.unique hnearest, hsaturating,
      hnarrowing, fun hlo hhi => ?_⟩
    rw [← UInt8.toNat_inj]
    omega
  · exact ofF32_narrowing_of_great hfinite.1 (F32.le_nearestMagnitude_of_le_abs hgreat)
  · have hnan := F32.not_isNaN_of_isInfinite hinfinite
    have hgreat := F32.le_nearestMagnitude_of_isInfinite hinfinite
    refine ⟨?_, ofF32_narrowing_of_great hnan hgreat⟩
    have hsaturating := toNat_ofF32_saturating hnan
    rw [F32.toInt_roundEven] at hsaturating
    simp only [F32.sign_eq_one_iff]
    split_ifs at hsaturating ⊢ with hsign
    · exact UInt8.toNat_inj.mp (show (ofF32 .saturating x).toNat = 0 by omega)
    · exact UInt8.toNat_inj.mp (show (ofF32 .saturating x).toNat = 255 by omega)

/-- The half between 254 and 255, a number past `2 ^ 31`, a NaN and an infinity. -/
theorem overflow_rules_cases :
    (Format.f32.IsFinite 0x437E8000 ∧ IsNearestInt (F32.value 0x437E8000) 254 ∧
      ofF32 .saturating 0x437E8000 = ofF32 .narrowing 0x437E8000) ∧
    (2 ^ 31 ≤ |F32.value 0xCF800000| ∧ ofF32 .narrowing 0xCF800000 = 0) ∧
    (F32.isNaN 0x7FC00000 = true ∧ ofF32 .narrowing 0x7FC00000 = 0) ∧
    (Format.f32.isInfinite 0xFF800000 = true ∧ ofF32 .narrowing 0xFF800000 = 0) := by
  have hhalf : Format.f32.IsFinite 0x437E8000 := by decide
  have hfinite : Format.f32.IsFinite 0xCF800000 := by decide
  have hgreat : 2 ^ 31 ≤ |F32.value 0xCF800000| := by decide +kernel
  have hnan : F32.isNaN 0x7FC00000 = true := by decide
  have hinfinite : Format.f32.isInfinite 0xFF800000 = true := by decide
  obtain ⟨r, hnearest, -, hsaturating, -, hagree⟩ := ((overflow_rules 0x437E8000).1 hhalf).1
  have hresult : (ofF32 .saturating 0x437E8000).toNat = 254 := by decide
  obtain rfl : r = 254 := by omega
  exact ⟨⟨hhalf, hnearest, hagree (by decide) (by decide)⟩,
    ⟨hgreat, ((overflow_rules 0xCF800000).1 hfinite).2 hgreat⟩,
    ⟨hnan, (overflow_rules 0x7FC00000).2.1 hnan .narrowing⟩,
    ⟨hinfinite, ((overflow_rules 0xFF800000).2.2 hinfinite).2⟩⟩

end Byte

end Lanewise

/-
Lanewise/Proofs/Integral.lean

Rounding a single-precision pattern to an integral value.

`roundEven` works on the pattern, with a carry from the mantissa into the exponent.
`nearestMagnitude` is the same rounding on the significand, as a quotient of natural
numbers.  The two agree:

    toInt (roundEven x) = ± nearestMagnitude x

(`toInt_roundEven`), and rounding a second time changes nothing
(`roundEven_roundEven`).  Between one and `2 ^ 23` both rest on one computation:
the rounded pattern is a multiple of the power of two at the place of the units bit,
and what lies above the significand is an even number of such units.
-/
import Lanewise.Proofs.Rounding
import Lanewise.Proofs.Values

namespace Lanewise.F32

/-! ### Exponent, significand, and the nearest integer -/

/-- The biased exponent as a number. -/
def exponent (x : UInt32) : Nat := (Format.f32.unpack x).exponent.toNat

/-- The mantissa with its leading one, as a number.  Subnormal patterns have no leading
one, but they round to zero with or without it. -/
def significand (x : UInt32) : Nat := 2 ^ 23 + (Format.f32.unpack x).mantissa.toNat

/-- The integer nearest to the absolute value of a pattern that is no NaN, ties to even.
An infinity counts as `2 ^ 128`. -/
def nearestMagnitude (x : UInt32) : Nat :=
  divNearestEven (significand x * 2 ^ (exponent x - 150)) (2 ^ (150 - exponent x))

theorem exponent_eq (x : UInt32) : exponent x = x.toNat / 2 ^ 23 % 2 ^ 8 := toNat_exponent x

theorem exponent_eq_max_iff (x : UInt32) :
    (Format.f32.unpack x).exponent = Format.f32.exponentMax ↔ exponent x = 255 := by
  rw [← UInt32.toNat_inj]
  rfl

theorem significand_eq (x : UInt32) : significand x = 2 ^ 23 + x.toNat % 2 ^ 23 := by
  rw [significand, toNat_mantissa]

/-- The leading one is set above the mantissa. -/
theorem toNat_significand (x : UInt32) :
    ((Format.f32.unpack x).mantissa ||| 0x800000).toNat = significand x := by
  have hm : x.toNat % 2 ^ 23 < 2 ^ 23 := Nat.mod_lt _ (by norm_num)
  rw [UInt32.toNat_or, toNat_mantissa, significand_eq, Nat.or_comm]
  exact (Nat.two_pow_add_eq_or_of_lt hm 1).symm

theorem sign_eq_one_iff (x : UInt32) : (Format.f32.unpack x).sign = 1 ↔ 2 ^ 31 ≤ x.toNat := by
  have hx := x.toNat_lt
  rw [← UInt32.toNat_inj, toNat_sign]
  show x.toNat / 2 ^ 31 = 1 ↔ _
  omega

theorem isNaN_iff (x : UInt32) : isNaN x = true ↔ exponent x = 255 ∧ x.toNat % 2 ^ 23 ≠ 0 := by
  have hpast : isNaN x = true ↔ 255 * 2 ^ 23 < x.toNat % 2 ^ 31 := Format.f32_fits.isNaN_iff x
  rw [hpast, exponent_eq]
  omega

theorem not_isNaN_of_exponent_lt {x : UInt32} (h : exponent x < 255) : isNaN x = false := by
  rw [Bool.eq_false_iff, ne_eq, isNaN_iff]
  omega

/-- No pattern but a NaN lies past the infinities. -/
theorem toNat_mod_le_of_not_isNaN {x : UInt32} (h : isNaN x = false) :
    x.toNat % 2 ^ 31 ≤ 255 * 2 ^ 23 := by
  rw [Bool.eq_false_iff, ne_eq, isNaN_iff, exponent_eq] at h
  omega

/-- What `toInt` computes, on numbers. -/
theorem toInt_eq (x : UInt32) :
    toInt x = (if 2 ^ 31 ≤ x.toNat then -1 else 1) *
      (if exponent x < 127 then 0
        else significand x * 2 ^ (exponent x - 150) / 2 ^ (150 - exponent x) : Nat) := by
  have he : ∀ k : UInt32, (Format.f32.unpack x).exponent < k ↔ exponent x < k.toNat :=
    fun k => UInt32.lt_iff_toNat_lt
  have he' : ∀ k : UInt32, (Format.f32.unpack x).exponent ≤ k ↔ exponent x ≤ k.toNat :=
    fun k => UInt32.le_iff_toNat_le
  have h127 : (127 : UInt32).toNat = 127 := rfl
  have h150 : (150 : UInt32).toNat = 150 := rfl
  have hdown : exponent x ≤ 150 →
      ((150 : UInt32) - (Format.f32.unpack x).exponent).toNat = 150 - exponent x := by
    intro h
    rw [UInt32.toNat_sub_of_le _ _ (by rw [UInt32.le_iff_toNat_le]; exact h)]
    rfl
  have hup : 150 ≤ exponent x →
      ((Format.f32.unpack x).exponent - 150).toNat = exponent x - 150 := by
    intro h
    rw [UInt32.toNat_sub_of_le _ _ (by rw [UInt32.le_iff_toNat_le]; exact h)]
    rfl
  simp only [toInt, toNat_significand, he, he', h127, h150, sign_eq_one_iff]
  have key : (if exponent x < 127 then 0
      else if exponent x ≤ 150 then
        significand x >>> ((150 : UInt32) - (Format.f32.unpack x).exponent).toNat
      else significand x <<< ((Format.f32.unpack x).exponent - 150).toNat)
      = if exponent x < 127 then 0
        else significand x * 2 ^ (exponent x - 150) / 2 ^ (150 - exponent x) := by
    split_ifs with h1 h2
    · rfl
    · rw [hdown h2, Nat.shiftRight_eq_div_pow, show exponent x - 150 = 0 by omega, pow_zero,
        Nat.mul_one]
    · rw [hup (by omega), Nat.shiftLeft_eq, show 150 - exponent x = 0 by omega, pow_zero,
        Nat.div_one]
  rw [key]
  by_cases hs : 2 ^ 31 ≤ x.toNat
  · rw [if_pos hs, if_pos hs, Int.neg_one_mul]
  · rw [if_neg hs, if_neg hs, Int.one_mul]

/-! ### Below one -/

theorem significand_lt (x : UInt32) : significand x < 2 ^ 24 := by
  rw [significand_eq]
  have : x.toNat % 2 ^ 23 < 2 ^ 23 := Nat.mod_lt _ (by norm_num)
  omega

theorem le_significand (x : UInt32) : 2 ^ 23 ≤ significand x := by
  rw [significand_eq]
  exact Nat.le_add_right _ _

theorem nearestMagnitude_of_lt {x : UInt32} (h : exponent x < 126) : nearestMagnitude x = 0 := by
  have hs := significand_lt x
  have hp : 2 ^ 25 ≤ 2 ^ (150 - exponent x) := Nat.pow_le_pow_right (by norm_num) (by omega)
  rw [nearestMagnitude, show exponent x - 150 = 0 by omega, pow_zero, Nat.mul_one]
  exact divNearestEven_eq_zero (by omega)

/-- From one half on, but below one, only one half itself rounds down. -/
theorem nearestMagnitude_of_eq {x : UInt32} (h : exponent x = 126) :
    nearestMagnitude x = if x.toNat % 2 ^ 23 = 0 then 0 else 1 := by
  have hm : x.toNat % 2 ^ 23 < 2 ^ 23 := Nat.mod_lt _ (by norm_num)
  rw [nearestMagnitude, significand_eq, h]
  simp only [divNearestEven, Nat.reduceSub, pow_zero, Nat.mul_one]
  rw [Nat.div_eq_of_lt (by omega), Nat.mod_eq_of_lt (by omega)]
  split_ifs <;> omega

theorem nearestMagnitude_le_one {x : UInt32} (h : exponent x < 127) : nearestMagnitude x ≤ 1 := by
  rcases Nat.lt_or_ge (exponent x) 126 with h1 | h1
  · rw [nearestMagnitude_of_lt h1]
    exact Nat.zero_le 1
  · rw [nearestMagnitude_of_eq (by omega : exponent x = 126)]
    split_ifs <;> omega

theorem toNat_signBit (x : UInt32) :
    ((Format.f32.unpack x).sign <<< 31).toNat = x.toNat / 2 ^ 31 * 2 ^ 31 := by
  have hx := x.toNat_lt
  rw [UInt32.toNat_shiftLeft, toNat_sign, Nat.shiftLeft_eq]
  show x.toNat / 2 ^ 31 * 2 ^ 31 % 2 ^ 32 = _
  omega

/-- A pattern below one rounds to a signed zero or a signed one. -/
theorem toNat_roundEven_of_lt {x : UInt32} (h : exponent x < 127) :
    (roundEven x).toNat
      = x.toNat / 2 ^ 31 * 2 ^ 31 + (if nearestMagnitude x = 0 then 0 else 127 * 2 ^ 23) := by
  have he : (Format.f32.unpack x).exponent.toNat = exponent x := rfl
  have h150 : ¬ 150 ≤ (Format.f32.unpack x).exponent := by
    rw [UInt32.le_iff_toNat_le, he]
    show ¬ 150 ≤ exponent x
    omega
  rcases Nat.lt_or_ge (exponent x) 126 with hlt | hge
  · have h126 : (Format.f32.unpack x).exponent < 126 := by rwa [UInt32.lt_iff_toNat_lt, he]
    simp only [roundEven, h150, h126, if_true, if_false]
    rw [toNat_signBit, nearestMagnitude_of_lt hlt, if_pos rfl, Nat.add_zero]
  · have heq : exponent x = 126 := by omega
    have h126 : (Format.f32.unpack x).exponent = 126 := by rw [← UInt32.toNat_inj, he, heq]; rfl
    have hmant : (Format.f32.unpack x).mantissa = 0 ↔ x.toNat % 2 ^ 23 = 0 := by
      rw [← UInt32.toNat_inj, toNat_mantissa]
      rfl
    simp only [roundEven, h126, hmant, nearestMagnitude_of_eq heq]
    by_cases hm : x.toNat % 2 ^ 23 = 0
    · simp only [hm, if_true, Nat.add_zero]
      rw [← toNat_signBit]
      rfl
    · have hor := Nat.two_pow_add_eq_or_of_lt (by norm_num : 127 * 2 ^ 23 < 2 ^ 31)
        (x.toNat / 2 ^ 31)
      simp only [hm, if_false]
      show ((Format.f32.unpack x).sign <<< 31 ||| 0x3F800000).toNat = _
      rw [UInt32.toNat_or, toNat_signBit, Nat.mul_comm]
      exact hor.symm

/-! ### Between one and `2 ^ 23` -/

/-- In the range where rounding has work to do, the pattern is rounded at the place of
the units bit as if it were an integer. -/
theorem toNat_roundEven_eq_div {x : UInt32} (hlo : 127 ≤ exponent x) (hhi : exponent x < 150) :
    (roundEven x).toNat
      = divNearestEven x.toNat (2 ^ (150 - exponent x)) * 2 ^ (150 - exponent x) := by
  set f := Format.f32.unpack x with hf
  have he : f.exponent.toNat = exponent x := rfl
  have h150 : ¬ 150 ≤ f.exponent := by
    rw [UInt32.le_iff_toNat_le, he]; show ¬ 150 ≤ exponent x; omega
  have h126 : ¬ f.exponent < 126 := by
    rw [UInt32.lt_iff_toNat_lt, he]; show ¬ exponent x < 126; omega
  have hne : ¬ f.exponent = 126 := by
    intro h; rw [h] at he; have : (126 : UInt32).toNat = 126 := rfl; omega
  have hs : ((150 : UInt32) - f.exponent).toNat = 150 - exponent x := by
    rw [UInt32.toNat_sub_of_le _ _ (by rw [UInt32.le_iff_toNat_le, he]; show _ ≤ 150; omega), he]
    rfl
  have hs1 : ((150 : UInt32) - f.exponent - 1).toNat = 149 - exponent x := by
    rw [UInt32.toNat_sub_of_le _ _ (by rw [UInt32.le_iff_toNat_le, hs]; show 1 ≤ _; omega), hs]
    show 150 - exponent x - 1 = _
    omega
  set h := 2 ^ (149 - exponent x) with hh
  have hh0 : 0 < h := Nat.pos_of_ne_zero (by positivity)
  have hpow : 2 ^ (150 - exponent x) = 2 * h := by
    rw [hh, show 150 - exponent x = (149 - exponent x) + 1 by omega, pow_succ, Nat.mul_comm]
  have hhle : h ≤ 2 ^ 22 := Nat.pow_le_pow_right (by norm_num) (by omega)
  have hhalf : ((1 : UInt32) <<< (150 - f.exponent - 1)).toNat = h := by
    rw [toNat_one_shiftLeft (by rw [hs1]; omega), hs1]
  have hhalf1 : ((1 : UInt32) <<< (150 - f.exponent - 1) - 1).toNat = h - 1 := by
    rw [UInt32.toNat_sub_of_le _ _ (by rw [UInt32.le_iff_toNat_le, hhalf]; exact hh0), hhalf]
    rfl
  have hunits : ((x >>> (150 - f.exponent)) &&& 1).toNat = x.toNat / (2 * h) % 2 := by
    rw [toNat_and_one, toNat_shiftRight_of_lt x (by rw [hs]; omega), hs, hpow]
  have hx : x.toNat % 2 ^ 31 < 150 * 2 ^ 23 := by
    have := exponent_eq x
    omega
  have hsum : (x + ((1 : UInt32) <<< (150 - f.exponent - 1) - 1)
      + ((x >>> (150 - f.exponent)) &&& 1)).toNat = x.toNat + (h - 1) + x.toNat / (2 * h) % 2 := by
    have := x.toNat_lt
    rw [UInt32.toNat_add, UInt32.toNat_add, hhalf1, hunits, Nat.mod_eq_of_lt (by omega),
      Nat.mod_eq_of_lt (by omega)]
  rw [roundEven]
  simp only [← hf, h150, h126, hne, if_false]
  rw [toNat_clear_low _ (by rw [hs]; omega), hsum, hs, hpow, add_half_div _ hh0]

theorem toNat_eq_fields {x : UInt32} (h : 1 ≤ exponent x) :
    x.toNat = x.toNat / 2 ^ 31 * 2 ^ 31 + (exponent x - 1) * 2 ^ 23 + significand x := by
  have he := exponent_eq x
  rw [significand_eq]
  omega

/-- The nearest integer lies within the pattern's power of two, or is the next one. -/
theorem nearestMagnitude_bounds {x : UInt32} (h : 127 ≤ exponent x) :
    2 ^ (exponent x - 127) ≤ nearestMagnitude x ∧
      nearestMagnitude x ≤ 2 * 2 ^ (exponent x - 127) := by
  have hp : 0 < 2 ^ (150 - exponent x) := by positivity
  have hscale : 2 ^ (exponent x - 127) * 2 ^ (150 - exponent x)
      = 2 ^ 23 * 2 ^ (exponent x - 150) := by
    rw [← pow_add, ← pow_add, show exponent x - 127 + (150 - exponent x) = 23 + (exponent x - 150)
      by omega]
  constructor
  · apply le_divNearestEven hp
    rw [hscale]
    exact Nat.mul_le_mul_right _ (le_significand x)
  · apply divNearestEven_le hp
    rw [Nat.mul_assoc, hscale, ← Nat.mul_assoc]
    exact Nat.mul_le_mul_right _ (significand_lt x).le

/-- The same in units of the last place. -/
theorem nearestMagnitude_mul_bounds {x : UInt32} (hlo : 127 ≤ exponent x)
    (hhi : exponent x < 150) :
    2 ^ 23 ≤ nearestMagnitude x * 2 ^ (150 - exponent x) ∧
      nearestMagnitude x * 2 ^ (150 - exponent x) ≤ 2 ^ 24 := by
  obtain ⟨hge, hle⟩ := nearestMagnitude_bounds hlo
  have h23 : 2 ^ 23 = 2 ^ (exponent x - 127) * 2 ^ (150 - exponent x) := by
    rw [← pow_add]
    congr 1
    omega
  have h24 : 2 ^ 24 = 2 * 2 ^ (exponent x - 127) * 2 ^ (150 - exponent x) := by
    rw [Nat.mul_assoc]
    linarith
  rw [h23, h24]
  exact ⟨Nat.mul_le_mul_right _ hge, Nat.mul_le_mul_right _ hle⟩

/-- What lies above the significand is an even number of units, so rounding the pattern
is rounding the significand. -/
theorem toNat_roundEven_of_mid {x : UInt32} (hlo : 127 ≤ exponent x) (hhi : exponent x < 150) :
    (roundEven x).toNat = x.toNat / 2 ^ 31 * 2 ^ 31 + (exponent x - 1) * 2 ^ 23
      + nearestMagnitude x * 2 ^ (150 - exponent x) := by
  set s := 150 - exponent x with hs
  have hp : 0 < 2 ^ s := by positivity
  have h31 : (2 : Nat) ^ 31 = 2 ^ (31 - s) * 2 ^ s := by
    rw [← pow_add]
    congr 1
    omega
  have h23 : (2 : Nat) ^ 23 = 2 ^ (23 - s) * 2 ^ s := by
    rw [← pow_add]
    congr 1
    omega
  set units := x.toNat / 2 ^ 31 * 2 ^ (31 - s) + (exponent x - 1) * 2 ^ (23 - s) with hunits
  have hmul : units * 2 ^ s
      = x.toNat / 2 ^ 31 * 2 ^ 31 + (exponent x - 1) * 2 ^ 23 := by
    rw [hunits, Nat.add_mul, Nat.mul_assoc, Nat.mul_assoc, ← h31, ← h23]
  have heven : units % 2 = 0 := by
    have h1 : x.toNat / 2 ^ 31 * 2 ^ (31 - s) % 2 = 0 := by
      have h2 : (2 : Nat) ^ (31 - s) = 2 ^ (30 - s) * 2 := by
        rw [← pow_succ]
        congr 1
        omega
      rw [h2, ← Nat.mul_assoc, Nat.mul_mod_left]
    have h2 : (exponent x - 1) * 2 ^ (23 - s) % 2 = 0 := by
      -- the exponent of one is odd; above it, two mantissa bits or more are dropped
      rcases Nat.eq_or_lt_of_le hlo with h127 | h128
      · rw [← h127, Nat.mul_mod, show (127 - 1) % 2 = 0 from rfl, Nat.zero_mul]
      · have h2 : (2 : Nat) ^ (23 - s) = 2 ^ (22 - s) * 2 := by
          rw [← pow_succ]
          congr 1
          omega
        rw [h2, ← Nat.mul_assoc, Nat.mul_mod_left]
    omega
  have hround : divNearestEven (significand x) (2 ^ s) = nearestMagnitude x := by
    rw [nearestMagnitude, show exponent x - 150 = 0 by omega, pow_zero, Nat.mul_one]
  rw [toNat_roundEven_eq_div hlo hhi, ← hs]
  conv_lhs => rw [toNat_eq_fields (x := x) (by omega), ← hmul]
  rw [divNearestEven_add_mul hp heven, hround, Nat.add_mul, hmul]

/-! ### The integer of a rounded pattern -/

theorem roundEven_of_le {x : UInt32} (h : 150 ≤ exponent x) : roundEven x = x := by
  have h150 : 150 ≤ (Format.f32.unpack x).exponent := by
    rw [UInt32.le_iff_toNat_le]
    exact h
  simp only [roundEven, h150, if_true]

theorem nearestMagnitude_of_le {x : UInt32} (h : 150 ≤ exponent x) :
    nearestMagnitude x = significand x * 2 ^ (exponent x - 150) := by
  have h1 := divNearestEven_mul (significand x * 2 ^ (exponent x - 150)) Nat.one_pos
  rw [Nat.mul_one] at h1
  rw [nearestMagnitude, show 150 - exponent x = 0 by omega, pow_zero, h1]

/-- Where a pattern between one and `2 ^ 23` goes: it stays within its power of two, or
becomes the next one. -/
theorem fields_roundEven_of_mid {x : UInt32} (hlo : 127 ≤ exponent x) (hhi : exponent x < 150) :
    (exponent (roundEven x) = exponent x ∧
      significand (roundEven x) = nearestMagnitude x * 2 ^ (150 - exponent x)) ∨
    (exponent (roundEven x) = exponent x + 1 ∧ significand (roundEven x) = 2 ^ 23 ∧
      nearestMagnitude x * 2 ^ (149 - exponent x) = 2 ^ 23) := by
  have hz := toNat_roundEven_of_mid hlo hhi
  obtain ⟨hge, hle⟩ := nearestMagnitude_mul_bounds hlo hhi
  have hhalf : nearestMagnitude x * 2 ^ (150 - exponent x)
      = 2 * (nearestMagnitude x * 2 ^ (149 - exponent x)) := by
    rw [show 150 - exponent x = (149 - exponent x) + 1 by omega, pow_succ]
    ring
  rw [exponent_eq (roundEven x), significand_eq (roundEven x)]
  have hx := x.toNat_lt
  rcases Nat.lt_or_ge (nearestMagnitude x * 2 ^ (150 - exponent x)) (2 ^ 24) with hlt | hcarry
  · left
    omega
  · right
    omega

theorem sign_roundEven (x : UInt32) : (roundEven x).toNat / 2 ^ 31 = x.toNat / 2 ^ 31 := by
  have hx := x.toNat_lt
  rcases Nat.lt_or_ge (exponent x) 127 with h1 | h1
  · rw [toNat_roundEven_of_lt h1]
    split_ifs <;> omega
  · rcases Nat.lt_or_ge (exponent x) 150 with h2 | h2
    · have hle := (nearestMagnitude_mul_bounds h1 h2).2
      rw [toNat_roundEven_of_mid h1 h2]
      omega
    · rw [roundEven_of_le h2]

theorem exponent_roundEven_of_lt {x : UInt32} (h : exponent x < 127) :
    exponent (roundEven x) = if nearestMagnitude x = 0 then 0 else 127 := by
  rw [exponent_eq, toNat_roundEven_of_lt h]
  split_ifs <;> omega

theorem exponent_roundEven_le {x : UInt32} (h : exponent x < 150) :
    exponent (roundEven x) ≤ 150 := by
  rcases Nat.lt_or_ge (exponent x) 127 with h1 | h1
  · rw [exponent_roundEven_of_lt h1]
    split_ifs <;> omega
  · rcases fields_roundEven_of_mid h1 h with ⟨he, -⟩ | ⟨he, -⟩ <;> omega

/-- Rounding neither makes nor loses a NaN. -/
theorem isNaN_roundEven (x : UInt32) : isNaN (roundEven x) = isNaN x := by
  rcases Nat.lt_or_ge (exponent x) 150 with h | h
  · have hle := exponent_roundEven_le h
    rw [not_isNaN_of_exponent_lt (by omega), not_isNaN_of_exponent_lt (by omega)]
  · rw [roundEven_of_le h]

/-- **The rounded pattern stands for the nearest integer**, with the sign of the pattern. -/
theorem toInt_roundEven (x : UInt32) :
    toInt (roundEven x) = (if 2 ^ 31 ≤ x.toNat then -1 else 1) * (nearestMagnitude x : Int) := by
  have hsign : 2 ^ 31 ≤ (roundEven x).toNat ↔ 2 ^ 31 ≤ x.toNat := by
    have := sign_roundEven x
    omega
  have key : (if exponent (roundEven x) < 127 then 0
      else significand (roundEven x) * 2 ^ (exponent (roundEven x) - 150)
        / 2 ^ (150 - exponent (roundEven x))) = nearestMagnitude x := by
    rcases Nat.lt_or_ge (exponent x) 127 with h1 | h1
    · have hn : nearestMagnitude x = 0 ∨ nearestMagnitude x = 1 := by
        have := nearestMagnitude_le_one h1
        omega
      have hsig : significand (roundEven x) = 2 ^ 23 := by
        rw [significand_eq, toNat_roundEven_of_lt h1]
        split_ifs <;> omega
      rw [exponent_roundEven_of_lt h1, hsig]
      rcases hn with hn | hn <;> rw [hn] <;> norm_num
    · rcases Nat.lt_or_ge (exponent x) 150 with h2 | h2
      · rcases fields_roundEven_of_mid h1 h2 with ⟨he, hsig⟩ | ⟨he, hsig, hn⟩
        · rw [he, hsig, if_neg (by omega), show exponent x - 150 = 0 by omega, pow_zero,
            Nat.mul_one, Nat.mul_div_cancel _ (by positivity)]
        · rw [he, hsig, if_neg (by omega), show exponent x + 1 - 150 = 0 by omega, pow_zero,
            Nat.mul_one, show 150 - (exponent x + 1) = 149 - exponent x by omega, ← hn,
            Nat.mul_div_cancel _ (by positivity)]
      · rw [roundEven_of_le h2, if_neg (by omega), nearestMagnitude_of_le h2,
          show 150 - exponent x = 0 by omega, pow_zero, Nat.div_one]
  rw [toInt_eq, key]
  simp only [hsign]

/-- A pattern with nothing below the place of its units bit is kept. -/
theorem roundEven_of_dvd {x : UInt32} (hlo : 127 ≤ exponent x) (hhi : exponent x < 150)
    (h : 2 ^ (150 - exponent x) ∣ x.toNat) : roundEven x = x := by
  obtain ⟨c, hc⟩ := h
  rw [← UInt32.toNat_inj, toNat_roundEven_eq_div hlo hhi]
  conv_lhs => rw [hc]
  rw [Nat.mul_comm _ c, divNearestEven_mul c (by positivity), hc, Nat.mul_comm]

/-- **Rounding twice is rounding once.** -/
theorem roundEven_roundEven (x : UInt32) : roundEven (roundEven x) = roundEven x := by
  rcases Nat.lt_or_ge (exponent x) 127 with h1 | h1
  · have hz := toNat_roundEven_of_lt h1
    have he := exponent_roundEven_of_lt h1
    split_ifs at hz he with hn
    · -- a signed zero
      have hzero := nearestMagnitude_of_lt (x := roundEven x) (by omega)
      rw [← UInt32.toNat_inj, toNat_roundEven_of_lt (by omega), hzero, if_pos rfl]
      omega
    · -- a signed one
      refine roundEven_of_dvd (by omega) (by omega) ?_
      rw [he, hz]
      omega
  · rcases Nat.lt_or_ge (exponent x) 150 with h2 | h2
    · have hdvd : 2 ^ (150 - exponent x) ∣ (roundEven x).toNat := by
        rw [toNat_roundEven_eq_div h1 h2]
        exact Nat.dvd_mul_left _ _
      have hle := exponent_roundEven_le h2
      have hge : exponent x ≤ exponent (roundEven x) := by
        rcases fields_roundEven_of_mid h1 h2 with ⟨he, -⟩ | ⟨he, -⟩ <;> omega
      rcases Nat.eq_or_lt_of_le hle with h150 | h150
      · exact roundEven_of_le h150.ge
      · exact roundEven_of_dvd (by omega) h150
          ((Nat.pow_dvd_pow 2 (by omega)).trans hdvd)
    · rw [roundEven_of_le h2, roundEven_of_le h2]

/-- The conversion to an integer rounds by itself; a rounding before it changes nothing. -/
theorem toInt32_roundEven (x : UInt32) : toInt32 (roundEven x) = toInt32 x := by
  simp only [toInt32, roundEven_roundEven, isNaN_roundEven]

/-! ### Order -/

/-- The nearest integer grows with the magnitude of the pattern. -/
theorem nearestMagnitude_mono {x y : UInt32} (h : x.toNat % 2 ^ 31 ≤ y.toNat % 2 ^ 31) :
    nearestMagnitude x ≤ nearestMagnitude y := by
  have hx := exponent_eq x
  have hy := exponent_eq y
  have he : exponent x ≤ exponent y := by omega
  rcases Nat.eq_or_lt_of_le he with heq | hlt
  · have hsig : significand x ≤ significand y := by
      rw [significand_eq, significand_eq]
      omega
    rw [nearestMagnitude, nearestMagnitude, heq]
    exact divNearestEven_mono _ (Nat.mul_le_mul_right _ hsig)
  · rcases Nat.lt_or_ge (exponent y) 127 with h1 | h1
    · rw [nearestMagnitude_of_lt (by omega : exponent x < 126)]
      exact Nat.zero_le _
    · have hle : nearestMagnitude x ≤ 2 ^ (exponent y - 127) := by
        rcases Nat.lt_or_ge (exponent x) 127 with h2 | h2
        · exact (nearestMagnitude_le_one h2).trans Nat.one_le_two_pow
        · calc nearestMagnitude x ≤ 2 * 2 ^ (exponent x - 127) := (nearestMagnitude_bounds h2).2
            _ = 2 ^ (exponent x - 127 + 1) := by rw [pow_succ, Nat.mul_comm]
            _ ≤ 2 ^ (exponent y - 127) := Nat.pow_le_pow_right (by norm_num) (by omega)
      exact hle.trans (nearestMagnitude_bounds h1).1

/-- From `2 ^ 31` on, patterns stand for multiples of 256. -/
theorem dvd_nearestMagnitude {x : UInt32} (h : 2 ^ 31 ≤ nearestMagnitude x) :
    2 ^ 8 ∣ nearestMagnitude x := by
  have hsignificand := significand_lt x
  rcases Nat.lt_or_ge (exponent x) 150 with hlo | hlo
  · have hsmall : nearestMagnitude x ≤ 2 ^ 24 := by
      refine divNearestEven_le (by positivity) ?_
      rw [show exponent x - 150 = 0 by omega, pow_zero, Nat.mul_one]
      exact hsignificand.le.trans (Nat.le_mul_of_pos_right _ (by positivity))
    omega
  · rw [nearestMagnitude_of_le hlo] at h ⊢
    have hplace : 8 ≤ exponent x - 150 := by
      by_contra hless
      have hpow : 2 ^ (exponent x - 150) ≤ 2 ^ 7 := Nat.pow_le_pow_right Nat.two_pos (by omega)
      have hmul := Nat.mul_lt_mul_of_lt_of_le hsignificand hpow (by positivity)
      omega
    exact Dvd.dvd.mul_left (pow_dvd_pow 2 hplace) _

end Lanewise.F32

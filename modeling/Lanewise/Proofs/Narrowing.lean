/-
Lanewise/Proofs/Narrowing.lean

The conversions of elements as arithmetic on the numbers of their patterns.

The shift with a round bit and a sticky bit is a division, rounded to nearest
(`toNat_shiftRightNearestEven`).  With it, a narrowing is a division of the pattern as a
whole: what lies above the mantissa is an even number of units, so the fields need not
be taken apart, and a carry runs where it should (`F16.toNat_ofF32_of_normal`,
`Bf16.toNat_ofF32`).  Only below the normal range is the significand divided apart from
the rest, by a unit that grows as the exponent falls (`F16.toNat_ofF32_of_subnormal`).
Widening is a multiplication (`F16.toNat_toF32_of_normal`, `Bf16.toNat_toF32`); a
subnormal pattern is moved up to its leading one first (`F16.toNat_toF32_of_subnormal`).
-/
import Lanewise.Proofs.Nearest
import Lanewise.Direction

namespace Lanewise

/-- The round bit tells whether half a unit falls off, and the sticky bit whether more does. -/
theorem toNat_shiftRightNearestEven (v : UInt32) {s : UInt32} (hlo : 1 ≤ s.toNat)
    (hhi : s.toNat ≤ 31) :
    (shiftRightNearestEven v s).toNat = divNearestEven v.toNat (2 ^ s.toNat) := by
  have hv := v.toNat_lt
  have hpred : (s - 1).toNat = s.toNat - 1 := by
    rw [UInt32.toNat_sub_of_le s 1 (UInt32.le_iff_toNat_le.mpr hlo)]
    rfl
  obtain ⟨h, hh⟩ : ∃ h, 2 ^ (s.toNat - 1) = h := ⟨_, rfl⟩
  have hpos : 0 < h := hh ▸ Nat.two_pow_pos _
  have hpow : 2 ^ s.toNat = 2 * h := by
    rw [← hh, ← pow_succ', Nat.sub_add_cancel hlo]
  have hkept : (v >>> s).toNat = v.toNat / (2 * h) := by
    rw [toNat_shiftRight_of_lt v (by omega), hpow]
  have hround : ((v >>> (s - 1)) &&& 1).toNat = v.toNat / h % 2 := by
    rw [toNat_and_one, toNat_shiftRight_of_lt v (by omega), hpred, hh]
  have hsticky : v &&& ((1 <<< (s - 1)) - 1) = 0 ↔ v.toNat % h = 0 := by
    rw [← UInt32.toNat_inj, UInt32.toNat_and, toNat_low_mask (by omega), hpred,
      Nat.and_two_pow_sub_one_eq_mod, hh]
    rfl
  have hodd : ((v >>> s) &&& 1).toNat = v.toNat / (2 * h) % 2 := by
    rw [toNat_and_one, hkept]
  -- the remainder is the round bit's half and what the sticky bit stands for
  have hrest : v.toNat % (2 * h) = v.toNat % h + h * (v.toNat / h % 2) := by
    rw [Nat.mul_comm 2 h, Nat.mod_mul]
  have hlow : v.toNat % h < h := Nat.mod_lt _ hpos
  have hone : v.toNat / (2 * h) + 1 < 2 ^ 32 := by
    have hhalf : v.toNat / (2 * h) ≤ v.toNat / 2 := Nat.div_le_div_left (by omega) Nat.two_pos
    omega
  have hadd : ∀ b : UInt32, b.toNat ≤ 1 → ((v >>> s) + b).toNat = v.toNat / (2 * h) + b.toNat := by
    intro b hb
    rw [UInt32.toNat_add, hkept, Nat.mod_eq_of_lt (by omega)]
  simp only [shiftRightNearestEven, divNearestEven, hpow, hrest]
  rcases Nat.mod_two_eq_zero_or_one (v.toNat / h) with hr | hr
  · have hzero : (v >>> (s - 1)) &&& 1 = 0 := UInt32.toNat_inj.mp (hround.trans hr)
    have hless : 2 * (v.toNat % h + h * 0) < 2 * h := by omega
    rw [hzero, UInt32.zero_and, UInt32.add_zero, hkept, hr, if_pos hless]
  · have hset : (v >>> (s - 1)) &&& 1 = 1 := UInt32.toNat_inj.mp (hround.trans hr)
    have hless : ¬ 2 * (v.toNat % h + h * 1) < 2 * h := by omega
    rw [hset, hr, if_neg hless, UInt32.and_comm 1]
    by_cases hz : v.toNat % h = 0
    · have hmore : ¬ 2 * h < 2 * (v.toNat % h + h * 1) := by omega
      rw [if_pos (hsticky.mpr hz), UInt32.zero_or, UInt32.and_assoc, UInt32.and_self,
        hadd _ (by rw [hodd]; omega), hodd, if_neg hmore]
    · have hmore : 2 * h < 2 * (v.toNat % h + h * 1) := by omega
      have hup : ((1 : UInt32) ||| (v >>> s) &&& 1) &&& 1 = 1 := by
        rcases Nat.mod_two_eq_zero_or_one (v.toNat / (2 * h)) with hb | hb
        · rw [UInt32.toNat_inj.mp (hodd.trans hb : _ = (0 : UInt32).toNat)]
          rfl
        · rw [UInt32.toNat_inj.mp (hodd.trans hb : _ = (1 : UInt32).toNat)]
          rfl
      rw [if_neg (mt hsticky.mp hz), hup, hadd 1 le_rfl, if_pos hmore]
      rfl

namespace F32

/-- Fields that fit their places are digits of the pattern's number. -/
theorem toNat_pack {f : Fields} (hsign : f.sign.toNat < 2) (hexponent : f.exponent.toNat < 2 ^ 8)
    (hmantissa : f.mantissa.toNat < 2 ^ 23) :
    (Format.f32.pack f).toNat
      = f.sign.toNat * 2 ^ 31 + f.exponent.toNat * 2 ^ 23 + f.mantissa.toNat := by
  refine (Format.f32_fits.toNat_pack f).trans ?_
  show f.sign.toNat % 2 * 2 ^ 31 + (f.exponent.toNat % 2 ^ 8 * 2 ^ 23 + f.mantissa.toNat % 2 ^ 23) = _
  rw [Nat.mod_eq_of_lt hsign, Nat.mod_eq_of_lt hexponent, Nat.mod_eq_of_lt hmantissa, Nat.add_assoc]

end F32

/-! ### Half precision -/

namespace F16

theorem toNat_infinity {sign : UInt32} (h : sign.toNat ≤ 1) :
    (Format.f16.infinity sign).toUInt16.toNat = sign.toNat * 2 ^ 15 + 31 * 2 ^ 10 := by
  rcases Nat.le_one_iff_eq_zero_or_eq_one.mp h with hs | hs
  · obtain rfl : sign = 0 := UInt32.toNat_inj.mp hs
    rfl
  · obtain rfl : sign = 1 := UInt32.toNat_inj.mp hs
    rfl

theorem toNat_signed {sign rounded : UInt32} (h : sign.toNat ≤ 1) (hr : rounded.toNat < 2 ^ 15) :
    ((sign <<< 15) ||| rounded).toUInt16.toNat = sign.toNat * 2 ^ 15 + rounded.toNat := by
  have hshift : (sign <<< 15).toNat = sign.toNat * 2 ^ 15 := by
    rw [UInt32.toNat_shiftLeft, Nat.shiftLeft_eq]
    show sign.toNat * 2 ^ 15 % 2 ^ 32 = _
    omega
  rw [UInt32.toNat_toUInt16, UInt32.toNat_or, hshift, Nat.mul_comm,
    ← Nat.two_pow_add_eq_or_of_lt hr]
  omega

theorem toNat_exponent_sub_rebias {x : UInt32} (h : 113 ≤ F32.exponent x) :
    ((Format.f32.unpack x).exponent - rebias).toNat = F32.exponent x - 112 :=
  UInt32.toNat_sub_of_le _ _ (UInt32.le_iff_toNat_le.mpr (Nat.le_of_succ_le h))

theorem exponentMax_le_sub_rebias_iff {x : UInt32} (h : 113 ≤ F32.exponent x) :
    Format.f16.exponentMax ≤ (Format.f32.unpack x).exponent - rebias
      ↔ 31 ≤ F32.exponent x - 112 := by
  rw [UInt32.le_iff_toNat_le, toNat_exponent_sub_rebias h]
  rfl

theorem toNat_rounded_mantissa (x : UInt32) :
    (shiftRightNearestEven (Format.f32.unpack x).mantissa 13).toNat
      = divNearestEven (x.toNat % 2 ^ 23) (2 ^ 13) := by
  rw [toNat_shiftRightNearestEven _ (by decide) (by decide), F32.toNat_mantissa]
  rfl

theorem divNearestEven_mantissa_le (x : UInt32) :
    divNearestEven (x.toNat % 2 ^ 23) (2 ^ 13) ≤ 2 ^ 10 :=
  divNearestEven_le (by norm_num) (Nat.mod_lt _ (by norm_num)).le

/-- In the normal range, a carry out of the mantissa is a carry within the pattern, and what
comes to the exponent of the infinities is an infinity. -/
theorem toNat_ofF32_of_normal {x : UInt32} (hlo : 113 ≤ F32.exponent x)
    (hhi : F32.exponent x < 255) :
    (ofF32 x).toNat = x.toNat / 2 ^ 31 * 2 ^ 15
      + min (31 * 2 ^ 10) (divNearestEven (x.toNat % 2 ^ 31 - 112 * 2 ^ 23) (2 ^ 13)) := by
  have hx := x.toNat_lt
  have he := F32.exponent_eq x
  have hsign := F32.toNat_sign x
  have hone := F32.sign_le_one x
  have hfinite := mt (F32.exponent_eq_max_iff x).mp hhi.ne
  have hnormal : normalExponent ≤ (Format.f32.unpack x).exponent :=
    UInt32.le_iff_toNat_le.mpr hlo
  -- the exponent's part of the pattern is an even number of units
  have hwhole : divNearestEven (x.toNat % 2 ^ 31 - 112 * 2 ^ 23) (2 ^ 13)
      = (F32.exponent x - 112) * 2 ^ 10 + divNearestEven (x.toNat % 2 ^ 23) (2 ^ 13) := by
    have hparts : x.toNat % 2 ^ 31 - 112 * 2 ^ 23
        = (F32.exponent x - 112) * 2 ^ 10 * 2 ^ 13 + x.toNat % 2 ^ 23 := by omega
    rw [hparts, divNearestEven_add_mul (by norm_num) (by omega)]
  have hcount := divNearestEven_mantissa_le x
  simp only [ofF32, if_neg hfinite, if_pos hnormal, exponentMax_le_sub_rebias_iff hlo, hwhole]
  by_cases hinf : 31 ≤ F32.exponent x - 112
  · rw [if_pos hinf, toNat_infinity hone, hsign]
    omega
  · have hrounded : (((Format.f32.unpack x).exponent - rebias) <<< 10
        + shiftRightNearestEven (Format.f32.unpack x).mantissa 13).toNat
        = (F32.exponent x - 112) * 2 ^ 10 + divNearestEven (x.toNat % 2 ^ 23) (2 ^ 13) := by
      rw [UInt32.toNat_add, UInt32.toNat_shiftLeft, toNat_exponent_sub_rebias hlo,
        toNat_rounded_mantissa, Nat.shiftLeft_eq]
      show ((F32.exponent x - 112) * 2 ^ 10 % 2 ^ 32 + _) % 2 ^ 32 = _
      omega
    have hcarry : (0x7C00 : UInt32) ≤ ((Format.f32.unpack x).exponent - rebias) <<< 10
          + shiftRightNearestEven (Format.f32.unpack x).mantissa 13
        ↔ 31 * 2 ^ 10
          ≤ (F32.exponent x - 112) * 2 ^ 10 + divNearestEven (x.toNat % 2 ^ 23) (2 ^ 13) := by
      rw [UInt32.le_iff_toNat_le, hrounded]
      rfl
    simp only [if_neg hinf, hcarry]
    split_ifs with hle
    · rw [toNat_infinity hone, hsign, Nat.min_eq_left hle]
    · rw [toNat_signed hone (by rw [hrounded]; omega), hrounded, hsign, Nat.min_eq_right (by omega)]

theorem toNat_subnormalShift {x : UInt32} (h : F32.exponent x < 113) :
    (subnormalShift (Format.f32.unpack x).exponent).toNat = 126 - F32.exponent x := by
  rw [subnormalShift, UInt32.toNat_sub_of_le _ _ ?_]
  · rfl
  · exact UInt32.le_iff_toNat_le.mpr (h.le.trans (by decide))

/-- A carry out of a subnormal mantissa gives the smallest normal number. -/
theorem divNearestEven_significand_le {x : UInt32} (h : F32.exponent x < 113) :
    divNearestEven (F32.significand x) (2 ^ (126 - F32.exponent x)) ≤ 2 ^ 10 := by
  have hscale : 2 ^ 10 * 2 ^ 14 ≤ 2 ^ 10 * 2 ^ (126 - F32.exponent x) :=
    Nat.mul_le_mul_left _ (Nat.pow_le_pow_right (by norm_num) (by omega))
  exact divNearestEven_le (by positivity) ((F32.significand_lt x).le.trans hscale)

/-- Below the normal range, the significand is rounded in the spacing of the subnormal numbers. -/
theorem toNat_ofF32_of_subnormal {x : UInt32} (hlo : 101 < F32.exponent x)
    (hhi : F32.exponent x < 113) :
    (ofF32 x).toNat = x.toNat / 2 ^ 31 * 2 ^ 15
      + divNearestEven (F32.significand x) (2 ^ (126 - F32.exponent x)) := by
  have hfinite := mt (F32.exponent_eq_max_iff x).mp (by omega)
  have hbelow : ¬ normalExponent ≤ (Format.f32.unpack x).exponent := by
    rw [UInt32.le_iff_toNat_le]
    exact Nat.not_le.mpr hhi
  have habove : underflowExponent < (Format.f32.unpack x).exponent := UInt32.lt_iff_toNat_lt.mpr hlo
  have hshift := toNat_subnormalShift hhi
  have hrounded : (shiftRightNearestEven ((Format.f32.unpack x).mantissa ||| 0x800000)
      (subnormalShift (Format.f32.unpack x).exponent)).toNat
      = divNearestEven (F32.significand x) (2 ^ (126 - F32.exponent x)) := by
    rw [toNat_shiftRightNearestEven _ (by omega) (by omega), hshift,
      F32.toNat_significand]
  have hsmall := divNearestEven_significand_le hhi
  simp only [ofF32, if_neg hfinite, if_neg hbelow, if_pos habove]
  rw [toNat_signed (F32.sign_le_one x) (by rw [hrounded]; omega), hrounded, F32.toNat_sign]

theorem toNat_ofF32_of_underflow {x : UInt32} (h : F32.exponent x ≤ 101) :
    (ofF32 x).toNat = x.toNat / 2 ^ 31 * 2 ^ 15 := by
  have hx := x.toNat_lt
  have hfinite := mt (F32.exponent_eq_max_iff x).mp (by omega)
  have hbelow : ¬ normalExponent ≤ (Format.f32.unpack x).exponent := by
    rw [UInt32.le_iff_toNat_le]
    exact Nat.not_le.mpr (Nat.lt_succ_of_le (h.trans (by decide)))
  have hzero : ¬ underflowExponent < (Format.f32.unpack x).exponent := by
    rw [UInt32.lt_iff_toNat_lt]
    exact Nat.not_lt.mpr h
  simp only [ofF32, if_neg hfinite, if_neg hbelow, if_neg hzero]
  rw [UInt32.toNat_toUInt16, UInt32.toNat_shiftLeft, F32.toNat_sign, Nat.shiftLeft_eq]
  show x.toNat / 2 ^ 31 * 2 ^ 15 % 2 ^ 32 % 2 ^ 16 = _
  omega

/-- Past the finite numbers the mantissa moves down, and a NaN is made quiet. -/
theorem toNat_ofF32_of_special {x : UInt32} (h : F32.exponent x = 255) :
    (ofF32 x).toNat = x.toNat / 2 ^ 31 * 2 ^ 15 + 31 * 2 ^ 10
      + if x.toNat % 2 ^ 23 = 0 then 0 else x.toNat % 2 ^ 23 / 2 ^ 13 ||| 2 ^ 9 := by
  have hx := x.toNat_lt
  have hmax := (F32.exponent_eq_max_iff x).mpr h
  have hmantissa : (Format.f32.unpack x).mantissa = 0 ↔ x.toNat % 2 ^ 23 = 0 := by
    rw [← UInt32.toNat_inj, F32.toNat_mantissa]
    rfl
  simp only [ofF32, if_pos hmax, hmantissa]
  split_ifs with hzero
  · rw [toNat_infinity (F32.sign_le_one x), F32.toNat_sign, Nat.add_zero]
  · have hlow : x.toNat % 2 ^ 23 / 2 ^ 13 ||| 2 ^ 9 < 2 ^ 10 :=
      Nat.or_lt_two_pow (by omega) (by norm_num)
    have hpayload : ((0x7C00 : UInt32) ||| (Format.f16.quietBit
        ||| (Format.f32.unpack x).mantissa >>> 13)).toNat
        = 31 * 2 ^ 10 + (x.toNat % 2 ^ 23 / 2 ^ 13 ||| 2 ^ 9) := by
      have hmax10 : (0x7C00 : UInt32).toNat = 2 ^ 10 * 31 := rfl
      have hquiet : Format.f16.quietBit.toNat = 2 ^ 9 := rfl
      rw [UInt32.toNat_or, UInt32.toNat_or, toNat_shiftRight_of_lt _ (by decide),
        F32.toNat_mantissa, hmax10, hquiet, Nat.or_comm (2 ^ 9), Nat.mul_comm 31]
      exact (Nat.two_pow_add_eq_or_of_lt hlow 31).symm
    rw [UInt32.or_assoc, UInt32.or_assoc,
      toNat_signed (F32.sign_le_one x) (by rw [hpayload]; omega), hpayload, F32.toNat_sign,
      Nat.add_assoc]

/-- The fields of a pattern are digits of its number. -/
theorem toNat_unpack (h : UInt16) :
    (Format.f16.unpack h.toUInt32).sign.toNat = h.toNat / 2 ^ 15 ∧
      (Format.f16.unpack h.toUInt32).exponent.toNat = h.toNat / 2 ^ 10 % 2 ^ 5 ∧
      (Format.f16.unpack h.toUInt32).mantissa.toNat = h.toNat % 2 ^ 10 := by
  have hh := h.toNat_lt
  have hsign : (Format.f16.unpack h.toUInt32).sign.toNat = h.toNat / 2 ^ 15 % 2 :=
    Format.f16_fits.toNat_sign h.toUInt32
  exact ⟨by omega, Format.f16_fits.toNat_exponent h.toUInt32,
    Format.f16_fits.toNat_mantissa h.toUInt32⟩

theorem exponent_eq_max_iff (h : UInt16) :
    (Format.f16.unpack h.toUInt32).exponent = Format.f16.exponentMax
      ↔ 31 * 2 ^ 10 ≤ h.toNat % 2 ^ 15 :=
  Format.f16_fits.exponent_eq_max_iff h.toUInt32

theorem exponent_eq_zero_iff (h : UInt16) :
    (Format.f16.unpack h.toUInt32).exponent = 0 ↔ h.toNat % 2 ^ 15 < 2 ^ 10 := by
  obtain ⟨-, hexponent, -⟩ := toNat_unpack h
  rw [← UInt32.toNat_inj, hexponent]
  show h.toNat / 2 ^ 10 % 2 ^ 5 = 0 ↔ _
  omega

theorem mantissa_eq_zero_iff (h : UInt16) :
    (Format.f16.unpack h.toUInt32).mantissa = 0 ↔ h.toNat % 2 ^ 10 = 0 := by
  obtain ⟨-, -, hmantissa⟩ := toNat_unpack h
  rw [← UInt32.toNat_inj, hmantissa]
  rfl

theorem isNaN_iff (h : UInt16) :
    Format.f16.isNaN h.toUInt32 = true ↔ 31 * 2 ^ 10 < h.toNat % 2 ^ 15 :=
  Format.f16_fits.isNaN_iff h.toUInt32

theorem toNat_mantissa_shiftLeft (h : UInt16) :
    ((Format.f16.unpack h.toUInt32).mantissa <<< 13).toNat = h.toNat % 2 ^ 10 * 2 ^ 13 := by
  obtain ⟨-, -, hmantissa⟩ := toNat_unpack h
  rw [UInt32.toNat_shiftLeft, hmantissa, Nat.shiftLeft_eq]
  show h.toNat % 2 ^ 10 * 2 ^ 13 % 2 ^ 32 = _
  omega

theorem toNat_mantissa_shiftLeft_or_quietBit (h : UInt16) :
    ((Format.f16.unpack h.toUInt32).mantissa <<< 13 ||| Format.f32.quietBit).toNat
      = (h.toNat % 2 ^ 10 ||| 2 ^ 9) * 2 ^ 13 := by
  have hquiet : Format.f32.quietBit.toNat = 2 ^ 9 * 2 ^ 13 := rfl
  rw [UInt32.toNat_or, toNat_mantissa_shiftLeft, hquiet, ← Nat.shiftLeft_eq, ← Nat.shiftLeft_eq,
    ← Nat.shiftLeft_eq, Nat.shiftLeft_or_distrib]

/-- Patterns of normal numbers are widened by a shift and a change of the bias. -/
theorem toNat_toF32_of_normal {h : UInt16} (hlo : 2 ^ 10 ≤ h.toNat % 2 ^ 15)
    (hhi : h.toNat % 2 ^ 15 < 31 * 2 ^ 10) :
    (toF32 h).toNat
      = h.toNat / 2 ^ 15 * 2 ^ 31 + (h.toNat % 2 ^ 15 * 2 ^ 13 + 112 * 2 ^ 23) := by
  obtain ⟨hsign, hexponent, -⟩ := toNat_unpack h
  have hh := h.toNat_lt
  have hshift := toNat_mantissa_shiftLeft h
  have hfinite := mt (exponent_eq_max_iff h).mp (by omega)
  have hnormal := mt (exponent_eq_zero_iff h).mp (by omega)
  have hrebias : ((Format.f16.unpack h.toUInt32).exponent + rebias).toNat
      = h.toNat / 2 ^ 10 % 2 ^ 5 + 112 := by
    rw [UInt32.toNat_add, hexponent]
    show (h.toNat / 2 ^ 10 % 2 ^ 5 + 112) % 2 ^ 32 = _
    omega
  simp only [toF32, if_neg hfinite, if_neg hnormal]
  rw [F32.toNat_pack (by rw [hsign]; omega) (by rw [hrebias]; omega) (by rw [hshift]; omega),
    hsign, hrebias, hshift]
  omega

/-- Subnormal patterns get the exponent of their leading one, and the mantissa below it. -/
theorem toNat_toF32_of_subnormal {h : UInt16} (hlo : 0 < h.toNat % 2 ^ 15)
    (hhi : h.toNat % 2 ^ 15 < 2 ^ 10) :
    (toF32 h).toNat = h.toNat / 2 ^ 15 * 2 ^ 31 + (((h.toNat % 2 ^ 15).log2 + 102) * 2 ^ 23
      + h.toNat % 2 ^ 15 * 2 ^ (23 - (h.toNat % 2 ^ 15).log2)) := by
  obtain ⟨hsign, -, hmantissa⟩ := toNat_unpack h
  have hh := h.toNat_lt
  have hfinite := mt (exponent_eq_max_iff h).mp (by omega)
  have hzero := (exponent_eq_zero_iff h).mpr hhi
  have hpos := mt (mantissa_eq_zero_iff h).mp (by omega)
  have hsame : h.toNat % 2 ^ 10 = h.toNat % 2 ^ 15 := by omega
  rw [hsame] at hmantissa
  obtain ⟨m, hm⟩ : ∃ m, h.toNat % 2 ^ 15 = m := ⟨_, rfl⟩
  rw [hm] at hmantissa hlo hhi ⊢
  have hlog : m.log2 ≤ 9 := Nat.le_of_lt_succ ((Nat.log2_lt hlo.ne').mpr hhi)
  obtain ⟨hlead, hnext⟩ := F32.mul_two_pow_bounds (p := 10) hlo (by omega)
  have hplace : m * 2 ^ (23 - m.log2) = m * 2 ^ (10 - m.log2) * 2 ^ 13 := by
    rw [Nat.mul_assoc, ← pow_add]
    congr 2
    omega
  have hlog2 : (Format.f16.unpack h.toUInt32).mantissa.log2.toNat = m.log2 :=
    congrArg Nat.log2 hmantissa
  have hshift : (normalizingShift (Format.f16.unpack h.toUInt32).mantissa).toNat
      = 10 - m.log2 := by
    rw [normalizingShift, UInt32.toNat_sub_of_le _ _ ?_, hlog2]
    · rfl
    · rw [UInt32.le_iff_toNat_le, hlog2]
      exact hlog.trans (by decide)
  have hexponent : (normalExponent
      - normalizingShift (Format.f16.unpack h.toUInt32).mantissa).toNat = m.log2 + 103 := by
    have hbias : normalExponent.toNat = 113 := rfl
    rw [UInt32.toNat_sub_of_le _ _ ?_, hshift, hbias]
    · omega
    · rw [UInt32.le_iff_toNat_le, hshift, hbias]
      omega
  -- the leading one falls away under the mask
  have hfraction : (((Format.f16.unpack h.toUInt32).mantissa
      <<< normalizingShift (Format.f16.unpack h.toUInt32).mantissa
        &&& Format.f16.mantissaMask) <<< 13).toNat
      = (m * 2 ^ (10 - m.log2) - 2 ^ 10) * 2 ^ 13 := by
    have hmask : Format.f16.mantissaMask.toNat = 2 ^ 10 - 1 := rfl
    have hless : (10 - m.log2) % 32 = 10 - m.log2 := Nat.mod_eq_of_lt (by omega)
    rw [UInt32.toNat_shiftLeft, UInt32.toNat_and, UInt32.toNat_shiftLeft, hmantissa, hshift, hmask,
      hless, Nat.and_two_pow_sub_one_eq_mod, Nat.shiftLeft_eq, Nat.shiftLeft_eq]
    show m * 2 ^ (10 - m.log2) % 2 ^ 32 % 2 ^ 10 * 2 ^ 13 % 2 ^ 32 = _
    omega
  simp only [toF32, if_neg hfinite, if_pos hzero, if_neg hpos]
  rw [F32.toNat_pack (by rw [hsign]; omega) (by rw [hexponent]; omega)
    (by rw [hfraction]; omega), hsign, hexponent, hfraction, hplace]
  omega

theorem toNat_toF32_of_zero {h : UInt16} (hzero : h.toNat % 2 ^ 15 = 0) :
    (toF32 h).toNat = h.toNat / 2 ^ 15 * 2 ^ 31 := by
  obtain ⟨hsign, -, -⟩ := toNat_unpack h
  have hh := h.toNat_lt
  have hfinite := mt (exponent_eq_max_iff h).mp (by omega)
  have hexponent := (exponent_eq_zero_iff h).mpr (by omega)
  have hmantissa := (mantissa_eq_zero_iff h).mpr (by omega)
  simp only [toF32, if_neg hfinite, if_pos hexponent, if_pos hmantissa]
  rw [UInt32.toNat_shiftLeft, hsign, Nat.shiftLeft_eq]
  show h.toNat / 2 ^ 15 * 2 ^ 31 % 2 ^ 32 = _
  omega

/-- Past the finite numbers the mantissa moves up, and a NaN is made quiet. -/
theorem toNat_toF32_of_special {h : UInt16} (hspecial : 31 * 2 ^ 10 ≤ h.toNat % 2 ^ 15) :
    (toF32 h).toNat = h.toNat / 2 ^ 15 * 2 ^ 31 + 255 * 2 ^ 23
      + if h.toNat % 2 ^ 10 = 0 then 0 else (h.toNat % 2 ^ 10 ||| 2 ^ 9) * 2 ^ 13 := by
  obtain ⟨hsign, -, -⟩ := toNat_unpack h
  have hh := h.toNat_lt
  have hmax := (exponent_eq_max_iff h).mpr hspecial
  have hlow : h.toNat % 2 ^ 10 ||| 2 ^ 9 < 2 ^ 10 := Nat.or_lt_two_pow (by omega) (by norm_num)
  have hpayload : ((Format.f16.unpack h.toUInt32).mantissa <<< 13
      ||| if (Format.f16.unpack h.toUInt32).mantissa = 0 then 0 else Format.f32.quietBit).toNat
      = if h.toNat % 2 ^ 10 = 0 then 0 else (h.toNat % 2 ^ 10 ||| 2 ^ 9) * 2 ^ 13 := by
    simp only [mantissa_eq_zero_iff]
    split_ifs with hzero
    · rw [UInt32.or_zero, toNat_mantissa_shiftLeft, hzero, Nat.zero_mul]
    · exact toNat_mantissa_shiftLeft_or_quietBit h
  have hexponent : Format.f32.exponentMax.toNat = 255 := rfl
  simp only [toF32, if_pos hmax]
  rw [F32.toNat_pack (by rw [hsign]; omega) (by rw [hexponent]; norm_num)
    (by rw [hpayload]; split_ifs <;> omega), hsign, hpayload, hexponent]

end F16

/-! ### The upper half -/

namespace Bf16

/-- A NaN keeps its upper half and is made quiet. -/
theorem ofF32_of_isNaN {x : UInt32} (h : F32.isNaN x = true) :
    ofF32 x = (x >>> 16).toUInt16 ||| 0x0040 := by
  have hnan : Format.f32.isNaN x = true := h
  simp only [ofF32, hnan, if_true, UInt32.toUInt16_or]
  rfl

/-- A pattern that is no NaN is divided as a whole. -/
theorem toNat_ofF32 {x : UInt32} (h : F32.isNaN x = false) :
    (ofF32 x).toNat = divNearestEven x.toNat (2 ^ 16) := by
  have hx := x.toNat_lt
  have hsmall := F32.toNat_mod_le_of_not_isNaN h
  have hhi : (x >>> 16).toNat = x.toNat / 2 ^ 16 := toNat_shiftRight_of_lt x (by decide)
  have hlow : (x &&& 0xFFFF).toNat = x.toNat % 2 ^ 16 := by
    rw [UInt32.toNat_and]
    exact Nat.and_two_pow_sub_one_eq_mod x.toNat 16
  have hodd : (x >>> 16 &&& (1 : UInt32)).toNat = x.toNat / 2 ^ 16 % 2 := by
    rw [toNat_and_one, hhi]
  have hthreshold : ((0x8000 : UInt32) - (x >>> 16 &&& (1 : UInt32))).toNat
      = 2 ^ 15 - x.toNat / 2 ^ 16 % 2 := by
    rw [UInt32.toNat_sub_of_le _ _ ?_, hodd]
    · rfl
    · rw [UInt32.le_iff_toNat_le, hodd]
      show _ ≤ 2 ^ 15
      omega
  have hnan : Format.f32.isNaN x = false := h
  simp only [ofF32, hnan, Bool.false_eq_true, if_false, UInt32.lt_iff_toNat_lt, hthreshold, hlow,
    divNearestEven]
  have hadd : ∀ b : UInt32, x.toNat / 2 ^ 16 + b.toNat < 2 ^ 16 →
      (x >>> 16 + b).toUInt16.toNat = x.toNat / 2 ^ 16 + b.toNat := by
    intro b hb
    rw [UInt32.toNat_toUInt16, UInt32.toNat_add, hhi]
    omega
  have hone : (1 : UInt32).toNat = 1 := rfl
  have hzero : (0 : UInt32).toNat = 0 := rfl
  split_ifs
  all_goals rw [hadd _ (by omega)]
  all_goals omega

theorem toNat_toF32 (b : UInt16) : (toF32 b).toNat = b.toNat * 2 ^ 16 := by
  have hb := b.toNat_lt
  rw [toF32, UInt32.toNat_shiftLeft, UInt16.toNat_toUInt32, Nat.shiftLeft_eq]
  show b.toNat * 2 ^ 16 % 2 ^ 32 = _
  omega

end Bf16

/-! ### Bytes -/

namespace Byte

theorem toNat_ofF32_saturating {x : UInt32} (h : F32.isNaN x = false) :
    ((ofF32 .saturating x).toNat : Int) = min (max (F32.toInt (F32.roundEven x)) 0) 255 := by
  have hkept : F32.isNaN (F32.roundEven x) = false := by rw [F32.isNaN_roundEven, h]
  simp only [ofF32, hkept, Bool.false_eq_true, if_false]
  rw [UInt8.toNat_ofNat']
  omega

/-- The cut-off at `2 ^ 31` changes nothing: past it the low byte is 0. -/
theorem toNat_ofF32_narrowing {x : UInt32} (h : F32.isNaN x = false) :
    ((ofF32 .narrowing x).toNat : Int) = F32.toInt (F32.roundEven x) % 256 := by
  have hkept : F32.isNaN (F32.roundEven x) = false := by rw [F32.isNaN_roundEven, h]
  have hmultiple := F32.dvd_nearestMagnitude (x := x)
  have hint := F32.toInt_roundEven x
  simp only [ofF32, hkept, Bool.false_eq_true, if_false]
  generalize F32.toInt (F32.roundEven x) = r at hint ⊢
  split_ifs with hgreat
  · have hlow := hmultiple (by split_ifs at hint <;> omega)
    show (0 : Int) = r % 256
    split_ifs at hint <;> omega
  · rw [toNat_byte_ofInt]
    omega

theorem ofF32_of_isNaN (overflow : Overflow) {x : UInt32} (h : F32.isNaN x = true) :
    ofF32 overflow x = 0 := by
  have hkept : F32.isNaN (F32.roundEven x) = true := by rw [F32.isNaN_roundEven, h]
  simp only [ofF32, hkept, if_true]

/-- Where the nearest integer is a byte, it is the result under both overflow rules. -/
theorem toNat_ofF32_of_lt {x : UInt32} (overflow : Overflow) (hnan : F32.isNaN x = false)
    (hpos : x.toNat < 2 ^ 31) (h : F32.nearestMagnitude x < 2 ^ 8) :
    (ofF32 overflow x).toNat = F32.nearestMagnitude x := by
  have hint : F32.toInt (F32.roundEven x) = (F32.nearestMagnitude x : Int) := by
    rw [F32.toInt_roundEven, if_neg (by omega), Int.one_mul]
  cases overflow with
  | saturating =>
    have hresult := toNat_ofF32_saturating hnan
    omega
  | narrowing =>
    have hresult := toNat_ofF32_narrowing hnan
    omega

end Byte

end Lanewise

/-
Lanewise/Proofs/Lanes/Half.lean

The half-precision instructions compute the scalar conversions.

An instruction rounds by the rule of conversions between formats, and a scalar conversion goes
by the fields of the pattern.  Both round the same number, each by counts of its own, and a
number is rounded in one way only (`Counted.rounded_unique`).  So the finite patterns agree
without any comparison of the two ways of counting:

    convert = sign, min top (rounded e n d)    for all counts n / d of the number

(`Format.toNat_convert_of_isFinite`).  Infinities and NaNs are compared field by field.  Hence
`toHalf_eq` and `ofHalf_eq`, for every pattern.
-/
import Lanewise.Lanes.Half
import Lanewise.Proofs.CorrectWidening
import Lanewise.Proofs.Lanes.Register

namespace Lanewise

namespace Format

/-! ### Rounding in units of the least subnormal number -/

section

variable {fmt : Format} {n d : Nat}

theorem Fits.unitsOf_unpack (h : fmt.Fits) (bits : UInt32) :
    fmt.unitsOf (fmt.unpack bits) = fmt.units (fmt.magnitude bits) := by
  rw [h.units_magnitude, unitsOf, count, binade]
  split_ifs with hzero
  · rw [hzero, UInt32.toNat_zero, Nat.max_eq_left (Nat.zero_le 1), Nat.sub_self, pow_zero,
      Nat.mul_one]
  · have hpos : 1 ≤ (fmt.unpack bits).exponent.toNat := by
      rw [← UInt32.toNat_inj] at hzero
      exact Nat.one_le_iff_ne_zero.mpr hzero
    rw [Nat.shiftLeft_eq, Nat.one_shiftLeft, Nat.max_eq_right hpos]

/-- The leading one of the quotient tells the binade. -/
theorem counted_nearest (fmt : Format) (n : Nat) (hd : 0 < d) :
    fmt.Counted (n / d * fmt.least) ((n / d).log2 - fmt.mantissaBits.toNat + 1) n
      (d * 2 ^ ((n / d).log2 - fmt.mantissaBits.toNat)) where
  one_le := Nat.le_add_left 1 _
  pos := Nat.mul_pos hd (by positivity)
  lead := by
    rcases Nat.eq_zero_or_pos ((n / d).log2 - fmt.mantissaBits.toNat) with hzero | hpos
    · exact .inr (by rw [hzero])
    · left
      have hne : n / d ≠ 0 := fun hzero => by
        rw [hzero, Nat.log2_zero, Nat.zero_sub] at hpos
        exact absurd hpos (lt_irrefl 0)
      have hlog : fmt.mantissaBits.toNat + ((n / d).log2 - fmt.mantissaBits.toNat)
          = (n / d).log2 := by omega
      calc 2 ^ fmt.mantissaBits.toNat * (d * 2 ^ ((n / d).log2 - fmt.mantissaBits.toNat))
          = 2 ^ (n / d).log2 * d := by
            rw [Nat.mul_left_comm, ← pow_add, hlog, Nat.mul_comm]
        _ ≤ n / d * d := Nat.mul_le_mul_right d (Nat.log2_self_le hne)
        _ ≤ n := Nat.div_mul_le_self n d
  lt := by
    have hpow : 2 ^ ((n / d).log2 + 1)
        ≤ 2 * 2 ^ fmt.mantissaBits.toNat * 2 ^ ((n / d).log2 - fmt.mantissaBits.toNat) := by
      rw [← pow_succ', ← pow_add]
      exact Nat.pow_le_pow_right Nat.two_pos (by omega)
    have hless := (Nat.div_lt_iff_lt_mul hd).mp (Nat.lt_log2_self.trans_le hpow)
    rwa [Nat.mul_assoc, Nat.mul_comm _ d] at hless
  eq := by
    have hd' : (d : ℚ) ≠ 0 := Nat.cast_ne_zero.mpr hd.ne'
    rw [step, Nat.add_sub_cancel]
    push_cast
    field_simp

/-- The nearest pattern is the rounded one, whatever the number is counted by. -/
theorem nearestPattern_eq (hfits : fmt.Fits) (hd : 0 < d) {e n' d' : Nat}
    (c : fmt.Counted (n / d * fmt.least) e n' d') :
    fmt.nearestPattern n d = min fmt.top (fmt.rounded e n' d') := by
  rw [← (fmt.counted_nearest n hd).rounded_unique c, rounded, Nat.add_sub_cancel, top,
    ← hfits.toNat_exponentMax, ← Nat.shiftLeft_eq, ← Nat.shiftLeft_eq, ← Nat.shiftLeft_eq]
  rfl

end

/-! ### Conversion between formats -/

section

variable {src dst : Format} {bits : UInt32}

/-- The least subnormal numbers are a power of two apart. -/
theorem least_eq_mul (src dst : Format) :
    src.least = 2 ^ (dst.bias + dst.mantissaBits.toNat - (src.bias + src.mantissaBits.toNat))
      * dst.least := by
  rw [least, least, ← zpow_add₀ two_ne_zero]
  congr 1
  ring

/-- A number in units of the one format, as a quotient of units of the other one. -/
theorem shifted_div_mul_least (src dst : Format) (n : Nat) {scale : Int}
    (hscale : dst.bias + dst.mantissaBits.toNat - (src.bias + src.mantissaBits.toNat) = scale) :
    ((n <<< scale.toNat : Nat) : ℚ) / (1 <<< (-scale).toNat : Nat) * dst.least
      = n * src.least := by
  rw [src.least_eq_mul dst, hscale, ← mul_assoc, ← mkRat_shift_eq, Rat.mkRat_eq_div]
  rfl

/-- A magnitude under a sign. -/
theorem Fits.toNat_pack_signed (hdst : dst.Fits) (sign : UInt32) {m : Nat} (hsign : sign.toNat ≤ 1)
    (hm : m < 2 ^ (dst.exponentBits.toNat + dst.mantissaBits.toNat)) :
    (dst.pack { dst.unpack (UInt32.ofNat m) with sign := sign }).toNat
      = sign.toNat * 2 ^ (dst.exponentBits.toNat + dst.mantissaBits.toNat) + m := by
  have hword : (UInt32.ofNat m).toNat = m :=
    UInt32.toNat_ofNat_of_lt' (hm.trans (Nat.pow_lt_pow_right Nat.one_lt_two hdst.places_lt))
  have hmagnitude := hdst.magnitude_eq (UInt32.ofNat m)
  rw [magnitude, hword, Nat.mod_eq_of_lt hm] at hmagnitude
  rw [hdst.toNat_pack, Nat.mod_eq_of_lt (Nat.lt_succ_of_le hsign),
    Nat.mod_eq_of_lt (hdst.exponent_lt _), Nat.mod_eq_of_lt (hdst.mantissa_lt _), ← hmagnitude]

/-- **A finite pattern is rounded once**, in whatever way its number is counted. -/
theorem toNat_convert_of_isFinite (hsrc : src.Fits) (hdst : dst.Fits)
    (hfinite : src.IsFinite bits) {e n d : Nat}
    (c : dst.Counted (src.absolute (src.magnitude bits)) e n d) :
    (src.convert dst bits).toNat
      = (src.unpack bits).sign.toNat * 2 ^ (dst.exponentBits.toNat + dst.mantissaBits.toNat)
        + min dst.top (dst.rounded e n d) := by
  rw [absolute, ← hsrc.unitsOf_unpack, ← shifted_div_mul_least src dst _ rfl] at c
  have hpattern := nearestPattern_eq hdst (by rw [Nat.one_shiftLeft]; positivity) c
  have hplaces : min dst.top (dst.rounded e n d)
      < 2 ^ (dst.exponentBits.toNat + dst.mantissaBits.toNat) :=
    (Nat.min_le_left _ _).trans_lt dst.top_lt
  simp only [convert, hfinite.1, hfinite.2, Bool.false_eq_true, if_false, hpattern]
  exact hdst.toNat_pack_signed _ (hsrc.sign_le_one bits) hplaces

theorem toNat_convert_of_isInfinite (hsrc : src.Fits) (hdst : dst.Fits)
    (hinfinite : src.isInfinite bits = true) :
    (src.convert dst bits).toNat
      = (src.unpack bits).sign.toNat * 2 ^ (dst.exponentBits.toNat + dst.mantissaBits.toNat)
        + dst.top := by
  simp only [convert, hsrc.not_isNaN_of_isInfinite hinfinite, hinfinite, Bool.false_eq_true,
    if_false, if_true, infinity]
  rw [hdst.toNat_pack, Nat.mod_eq_of_lt (Nat.lt_succ_of_le (hsrc.sign_le_one bits)),
    Nat.mod_eq_of_lt hdst.exponentMax_lt, UInt32.toNat_zero, Nat.zero_mod, Nat.add_zero,
    hdst.toNat_exponentMax, top]

/-- A NaN gets the upper part of its mantissa, with the topmost bit set. -/
theorem toNat_convert_of_isNaN (hsrc : src.Fits) (hdst : dst.Fits)
    (hnan : src.isNaN bits = true) {m : Nat} (hm : m < 2 ^ dst.mantissaBits.toNat)
    (haligned : (src.alignMantissa dst (src.unpack bits).mantissa).toNat = m) :
    (src.convert dst bits).toNat
      = (src.unpack bits).sign.toNat * 2 ^ (dst.exponentBits.toNat + dst.mantissaBits.toNat)
        + (dst.top + (m ||| 2 ^ (dst.mantissaBits.toNat - 1))) := by
  have hquiet : 2 ^ (dst.mantissaBits.toNat - 1) < 2 ^ dst.mantissaBits.toNat :=
    Nat.pow_lt_pow_right Nat.one_lt_two (Nat.sub_lt hdst.mantissa_pos Nat.one_pos)
  simp only [convert, hnan, if_true]
  rw [hdst.toNat_pack, Nat.mod_eq_of_lt (Nat.lt_succ_of_le (hsrc.sign_le_one bits)),
    Nat.mod_eq_of_lt hdst.exponentMax_lt, UInt32.toNat_or, haligned, hdst.toNat_quietBit,
    Nat.mod_eq_of_lt (Nat.or_lt_two_pow hm hquiet), hdst.toNat_exponentMax, top]

end

end Format

namespace Lanes

open Format

/-! ### Narrowing -/

/-- **The narrowing instruction is the scalar conversion.** -/
theorem toHalf_eq (x : UInt32) : toHalf x = F16.ofF32 x := by
  have hx := x.toNat_lt
  have hsign := F32.toNat_sign x
  -- the sign and any magnitude leave no bit above the half
  have hhalf : ∀ {m : Nat}, m < 2 ^ 15 →
      (f32.convert f16 x).toNat = (f32.unpack x).sign.toNat * 2 ^ 15 + m →
      (toHalf x).toNat = x.toNat / 2 ^ 31 * 2 ^ 15 + m := by
    intro m hm hconvert
    rw [toHalf, UInt32.toNat_toUInt16, hconvert, hsign]
    omega
  apply UInt16.toNat_inj.mp
  rcases f32.class_cases x with hfinite | hinfinite | hnan
  · have htop : ∀ r : Nat, min f16.top r < 2 ^ 15 :=
      fun r => (Nat.min_le_left _ r).trans_lt f16.top_lt
    have hvalue : |F32.value x| = f32.absolute (f32.magnitude x) := f32_fits.abs_value x
    rcases Nat.lt_or_ge (F32.exponent x) 113 with hlo | hlo
    · rw [F16.toNat_ofF32_eq_rounded_of_small hlo]
      exact hhalf (htop _) (toNat_convert_of_isFinite f32_fits f16_fits hfinite
        (hvalue ▸ F16.counted_of_small hlo))
    · rw [F16.toNat_ofF32_eq_rounded_of_normal hlo (F32.exponent_lt_of_isFinite hfinite)]
      exact hhalf (htop _) (toNat_convert_of_isFinite f32_fits f16_fits hfinite
        (hvalue ▸ F16.counted_of_normal hlo))
  · obtain ⟨hexponent, hmantissa⟩ := F32.exponent_of_isInfinite hinfinite
    rw [F16.toNat_ofF32_of_special hexponent, if_pos hmantissa, Nat.add_zero]
    exact hhalf f16.top_lt (toNat_convert_of_isInfinite f32_fits f16_fits hinfinite)
  · obtain ⟨hexponent, hmantissa⟩ := (F32.isNaN_iff x).mp hnan
    have hlow : x.toNat % 2 ^ 23 / 2 ^ 13 < 2 ^ 10 := by omega
    have haligned : (f32.alignMantissa f16 (f32.unpack x).mantissa).toNat
        = x.toNat % 2 ^ 23 / 2 ^ 13 := by
      rw [← F32.toNat_mantissa]
      exact toNat_shiftRight_of_lt _ (by decide)
    have hroom : f16.top + 2 ^ 10 = 2 ^ 15 := f16.top_add
    have hpayload : x.toNat % 2 ^ 23 / 2 ^ 13 ||| 2 ^ 9 < 2 ^ 10 :=
      Nat.or_lt_two_pow hlow (by norm_num)
    rw [F16.toNat_ofF32_of_special hexponent, if_neg hmantissa, Nat.add_assoc]
    exact hhalf (by omega) (toNat_convert_of_isNaN f32_fits f16_fits hnan hlow haligned)

/-! ### Widening -/

/-- **The widening instruction is the scalar conversion.** -/
theorem ofHalf_eq (h : UInt16) : ofHalf h = F16.toF32 h := by
  obtain ⟨hsign, -, -⟩ := F16.toNat_unpack h
  have hplaces : f32.exponentBits.toNat + f32.mantissaBits.toNat = 31 := rfl
  have hlast : f32.top = 255 * 2 ^ 23 := rfl
  apply UInt32.toNat_inj.mp
  rcases f16.class_cases h.toUInt32 with hfinite | hinfinite | hnan
  · -- the value is one of the wider format's own
    obtain ⟨m, hless, hh, hvalue⟩ := F16.exists_toNat_toF32 hfinite
    obtain ⟨e, k, c, hrounded⟩ := f32.exists_counted_absolute m
    rw [hvalue] at c
    rw [ofHalf, toNat_convert_of_isFinite f16_fits f32_fits hfinite c, hrounded,
      Nat.min_eq_right hless.le, hplaces, hsign, hh]
  · have htop : h.toNat % 2 ^ 15 = 31 * 2 ^ 10 := (f16_fits.isInfinite_iff _).mp hinfinite
    have hzero : h.toNat % 2 ^ 10 = 0 := by omega
    rw [ofHalf, toNat_convert_of_isInfinite f16_fits f32_fits hinfinite, hplaces, hlast, hsign,
      F16.toNat_toF32_of_special htop.ge, if_pos hzero, Nat.add_zero]
  · have hgreat := (F16.isNaN_iff h).mp hnan
    have hshift : f32.mantissaBits.toNat - 1 = 22 := rfl
    have haligned : (f16.alignMantissa f32 (f16.unpack h.toUInt32).mantissa).toNat
        = h.toNat % 2 ^ 10 * 2 ^ 13 := F16.toNat_mantissa_shiftLeft h
    have hplace : h.toNat % 2 ^ 10 * 2 ^ 13 < 2 ^ (10 + 13) := by
      rw [pow_add]
      exact Nat.mul_lt_mul_of_pos_right (Nat.mod_lt _ (by norm_num)) (by norm_num)
    have hmantissa : h.toNat % 2 ^ 10 ≠ 0 := by omega
    have hquiet : h.toNat % 2 ^ 10 * 2 ^ 13 ||| 2 ^ 22 = (h.toNat % 2 ^ 10 ||| 2 ^ 9) * 2 ^ 13 := by
      have htwo : (2 : Nat) ^ 22 = 2 ^ 9 * 2 ^ 13 := by norm_num
      rw [htwo, ← Nat.shiftLeft_eq, ← Nat.shiftLeft_eq, ← Nat.shiftLeft_eq,
        Nat.shiftLeft_or_distrib]
    rw [ofHalf, toNat_convert_of_isNaN f16_fits f32_fits hnan hplace haligned, hplaces, hlast,
      hshift, hsign, F16.toNat_toF32_of_special hgreat.le, if_neg hmantissa, ← hquiet,
      Nat.add_assoc]

/-! ### Registers -/

theorem halvesOf_eq {n : Nat} (v : Vector UInt32 n) : halvesOf v = v.map F16.ofF32 :=
  congrArg (Vector.map · v) (funext toHalf_eq)

theorem lower_halvesOf4 (v : Vector UInt32 4) : lower (n := 4) (halvesOf4 v) = v.map F16.ofF32 := by
  refine Vector.ext fun i hi => ?_
  rw [getElem_lower, halvesOf4, Vector.getElem_ofFn, if_pos hi, Vector.getElem_map, toHalf_eq]
  exact congrArg F16.ofF32 (lane_eq_getElem v hi)

end Lanes

end Lanewise

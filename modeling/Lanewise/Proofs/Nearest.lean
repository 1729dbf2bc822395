/-
Lanewise/Proofs/Nearest.lean

Sums and quotients of patterns, on natural numbers.

A pattern that is not negative counts so many units of the least subnormal number
(`units`), and its value is that count (`value_eq_units`).  Hence a sum of two such
patterns is the pattern nearest to a quotient of natural numbers (`add_eq`), and so is
a quotient of whole numbers (`div_ofNat`); which of the quotients that stand for one
number is taken does not matter (`nearest_div`).  All rests on the bounds of the power
of two at or below a quotient (`floorLog2_bounds`), which it alone satisfies
(`floorLog2_eq`).
-/
import Mathlib.Tactic
import Lanewise.Proofs.Integral

namespace Lanewise

namespace F32

/-! ### The power of two at or below a quotient -/

/-- A comparison of shifted numbers is a comparison of the quotient with a power of two. -/
theorem shiftLeft_lt_shiftLeft_iff {n d : Nat} (hd : 0 < d) (e : Int) :
    n <<< (-e).toNat < d <<< e.toNat ↔ (n : ℚ) / d < 2 ^ e := by
  have hd' : (0 : ℚ) < d := Nat.cast_pos.mpr hd
  rw [div_lt_iff₀ hd', Nat.shiftLeft_eq, Nat.shiftLeft_eq, ← Nat.cast_lt (α := ℚ)]
  push_cast
  rcases le_total 0 e with he | he
  · have hneg : (-e).toNat = 0 := by omega
    rw [hneg, pow_zero, mul_one, ← zpow_natCast, Int.toNat_of_nonneg he, mul_comm (d : ℚ)]
  · have hpos : e.toNat = 0 := by omega
    rw [hpos, pow_zero, mul_one, ← zpow_natCast, Int.toNat_of_nonneg (by omega), zpow_neg,
      ← div_eq_mul_inv, div_lt_iff₀ (zpow_pos two_pos e), mul_comm (d : ℚ)]

/-- The exponent is that of the power of two at or below the quotient. -/
theorem floorLog2_bounds {n d : Nat} (hn : 0 < n) (hd : 0 < d) :
    (2 : ℚ) ^ floorLog2 n d ≤ n / d ∧ (n : ℚ) / d < 2 ^ (floorLog2 n d + 1) := by
  have hd' : (0 : ℚ) < d := Nat.cast_pos.mpr hd
  have hnlo : (2 : ℚ) ^ n.log2 ≤ n := by exact_mod_cast Nat.log2_self_le hn.ne'
  have hnhi : (n : ℚ) < 2 ^ (n.log2 + 1) := by exact_mod_cast Nat.lt_log2_self
  have hdlo : (2 : ℚ) ^ d.log2 ≤ d := by exact_mod_cast Nat.log2_self_le hd.ne'
  have hdhi : (d : ℚ) < 2 ^ (d.log2 + 1) := by exact_mod_cast Nat.lt_log2_self
  -- the difference of the two exponents is right, or one too great
  have hlow : (2 : ℚ) ^ ((n.log2 : ℤ) - d.log2 - 1) ≤ n / d := by
    rw [le_div_iff₀ hd']
    calc (2 : ℚ) ^ ((n.log2 : ℤ) - d.log2 - 1) * d
        ≤ 2 ^ ((n.log2 : ℤ) - d.log2 - 1) * 2 ^ (d.log2 + 1) := by gcongr
      _ = 2 ^ n.log2 := by
          rw [← zpow_natCast, ← zpow_natCast, ← zpow_add₀ two_ne_zero]
          congr 1
          push_cast
          ring
      _ ≤ n := hnlo
  have hhigh : (n : ℚ) / d < 2 ^ ((n.log2 : ℤ) - d.log2 + 1) := by
    rw [div_lt_iff₀ hd']
    calc (n : ℚ) < 2 ^ (n.log2 + 1) := hnhi
      _ = 2 ^ ((n.log2 : ℤ) - d.log2 + 1) * 2 ^ d.log2 := by
          rw [← zpow_natCast, ← zpow_natCast, ← zpow_add₀ two_ne_zero]
          congr 1
          push_cast
          ring
      _ ≤ 2 ^ ((n.log2 : ℤ) - d.log2 + 1) * d := by gcongr
  simp only [floorLog2, shiftLeft_lt_shiftLeft_iff hd]
  split_ifs with hless
  · rw [sub_add_cancel]
    exact ⟨hlow, hless⟩
  · exact ⟨not_lt.mp hless, hhigh⟩

/-- No other exponent has these bounds. -/
theorem floorLog2_eq {n d : Nat} (hn : 0 < n) (hd : 0 < d) {e : Int}
    (hlo : (2 : ℚ) ^ e ≤ n / d) (hhi : (n : ℚ) / d < 2 ^ (e + 1)) : floorLog2 n d = e := by
  obtain ⟨hge, hlt⟩ := floorLog2_bounds hn hd
  have h1 := (zpow_lt_zpow_iff_right₀ (one_lt_two (α := ℚ))).mp (hlo.trans_lt hlt)
  have h2 := (zpow_lt_zpow_iff_right₀ (one_lt_two (α := ℚ))).mp (hge.trans_lt hhi)
  omega

/-! ### The nearest pattern -/

/-- A quotient need not be in lowest terms. -/
theorem nearestQuotient_mul_mul {g : Nat} (hg : 0 < g) (n : Nat) {d : Nat} (hd : 0 < d) :
    nearestQuotient (g * n) (g * d) = nearestQuotient n d := by
  rcases Nat.eq_zero_or_pos n with rfl | hn
  · simp only [nearestQuotient, Nat.mul_zero, if_true]
  · have hquotient : ((g * n : Nat) : ℚ) / (g * d : Nat) = n / d := by
      push_cast
      exact mul_div_mul_left _ _ (Nat.cast_ne_zero.mpr hg.ne')
    have hlog : floorLog2 (g * n) (g * d) = floorLog2 n d := by
      obtain ⟨hlo, hhi⟩ := floorLog2_bounds hn hd
      refine floorLog2_eq (Nat.mul_pos hg hn) (Nat.mul_pos hg hd) ?_ ?_
      · rwa [hquotient]
      · rwa [hquotient]
    have hshift : ∀ a k : Nat, (g * a) <<< k = g * (a <<< k) := by
      intro a k
      rw [Nat.shiftLeft_eq, Nat.shiftLeft_eq, Nat.mul_assoc]
    rw [nearestQuotient, nearestQuotient, if_neg (Nat.mul_pos hg hn).ne', if_neg hn.ne', hlog]
    simp only [hshift, divNearestEven_mul_mul hg]

/-- The pattern nearest to a rational number, from any quotient that stands for it. -/
theorem nearest_div (n : Nat) {d : Nat} (hd : 0 < d) :
    nearest ((n : ℚ) / d) = nearestQuotient n d := by
  have hq : 0 ≤ ((n : ℚ) / d).num := Rat.num_nonneg.mpr (by positivity)
  obtain ⟨g, hnum, hden⟩ := Rat.exists_eq_mul_div_num_and_eq_mul_div_den (n : ℤ)
    (d := (d : ℤ)) (by exact_mod_cast hd.ne')
  simp only [Int.cast_natCast] at hnum hden
  have hg : 0 < g := by
    have hdpos : (0 : ℤ) < d := by exact_mod_cast hd
    rw [hden] at hdpos
    exact pos_of_mul_pos_left hdpos (by positivity)
  have hn : n = g.natAbs * ((n : ℚ) / d).num.natAbs := by
    rw [← Int.natAbs_mul, ← hnum, Int.natAbs_natCast]
  have hd' : d = g.natAbs * ((n : ℚ) / d).den := by
    have habs := congrArg Int.natAbs hden
    rwa [Int.natAbs_mul, Int.natAbs_natCast, Int.natAbs_natCast] at habs
  simp only [nearest, if_neg (Int.not_lt.mpr hq)]
  rw [← nearestQuotient_mul_mul (Int.natAbs_pos.mpr hg.ne') _ (Rat.den_pos _), ← hn, ← hd']

theorem toNat_nearestQuotient_lt (n d : Nat) : (nearestQuotient n d).toNat < 2 ^ 31 := by
  have hmin : ∀ m : Nat, (UInt32.ofNat (min 0x7F800000 m)).toNat < 2 ^ 31 := by
    intro m
    have hle : min 0x7F800000 m ≤ 0x7F800000 := min_le_left _ _
    rw [UInt32.toNat_ofNat']
    exact (Nat.mod_le _ _).trans_lt (hle.trans_lt (by decide))
  rw [nearestQuotient]
  split_ifs
  · decide
  · exact hmin _

/-- A significand has its leading one at bit 23, unless it is rounded up to `2 ^ 24`. -/
theorem divNearestEven_significand_bounds {n d f : Nat} (hd : 0 < d) (hf : f ≤ 55)
    (hlo : 2 ^ f * d ≤ n * 2 ^ 32) (hhi : n * 2 ^ 32 < 2 ^ (f + 1) * d) :
    2 ^ 23 ≤ divNearestEven (n * 2 ^ (55 - f)) d ∧
      divNearestEven (n * 2 ^ (55 - f)) d ≤ 2 ^ 24 := by
  have h55 : 2 ^ f * 2 ^ (55 - f) = 2 ^ 55 := by
    rw [← pow_add, Nat.add_sub_cancel' hf]
  constructor
  · refine le_divNearestEven hd (Nat.le_of_mul_le_mul_right ?_ (by norm_num : 0 < 2 ^ 32))
    calc 2 ^ 23 * d * 2 ^ 32 = 2 ^ f * 2 ^ (55 - f) * d := by rw [h55]; ring
      _ = 2 ^ f * d * 2 ^ (55 - f) := by ring
      _ ≤ n * 2 ^ 32 * 2 ^ (55 - f) := Nat.mul_le_mul_right _ hlo
      _ = n * 2 ^ (55 - f) * 2 ^ 32 := by ring
  · refine divNearestEven_le hd (Nat.le_of_mul_le_mul_right ?_ (by norm_num : 0 < 2 ^ 32))
    calc n * 2 ^ (55 - f) * 2 ^ 32 = n * 2 ^ 32 * 2 ^ (55 - f) := by ring
      _ ≤ 2 ^ (f + 1) * d * 2 ^ (55 - f) := Nat.mul_le_mul_right _ hhi.le
      _ = 2 * (2 ^ f * 2 ^ (55 - f)) * d := by ring
      _ = 2 ^ 24 * d * 2 ^ 32 := by rw [h55]; ring

/-- A quotient in the range of normal patterns, neither too small nor so great that the
significand has to be cut off.  Multiplied by `2 ^ 32` it is at least one, and its power of
two is found on natural numbers. -/
theorem toNat_nearestQuotient {n d f : Nat} (hd : 0 < d) (hf : f ≤ 55)
    (hlo : 2 ^ f * d ≤ n * 2 ^ 32) (hhi : n * 2 ^ 32 < 2 ^ (f + 1) * d) :
    (nearestQuotient n d).toNat = (f + 94) * 2 ^ 23 + divNearestEven (n * 2 ^ (55 - f)) d := by
  have hpos : 0 < n := by
    rcases Nat.eq_zero_or_pos n with rfl | h
    · have := Nat.mul_pos (Nat.two_pow_pos f) hd
      omega
    · exact h
  have hd' : (0 : ℚ) < d := Nat.cast_pos.mpr hd
  have hlog : floorLog2 n d = (f : ℤ) - 32 := by
    have hscale : ∀ e : ℕ, (2 : ℚ) ^ ((e : ℤ) - 32) * 2 ^ 32 = 2 ^ e := by
      intro e
      rw [← zpow_natCast, ← zpow_natCast, ← zpow_add₀ two_ne_zero]
      congr 1
      push_cast
      ring
    refine floorLog2_eq hpos hd ?_ ?_
    · rw [le_div_iff₀ hd', ← mul_le_mul_iff_left₀ (by norm_num : (0 : ℚ) < 2 ^ 32), mul_right_comm,
        hscale]
      exact_mod_cast hlo
    · have hsucc : (f : ℤ) - 32 + 1 = ((f + 1 : ℕ) : ℤ) - 32 := by
        push_cast
        ring
      rw [div_lt_iff₀ hd', ← mul_lt_mul_iff_left₀ (by norm_num : (0 : ℚ) < 2 ^ 32), hsucc,
        mul_right_comm, hscale]
      exact_mod_cast hhi
  have hmax : max (-126) (floorLog2 n d) = (f : ℤ) - 32 := by
    rw [hlog]
    omega
  have hup : (23 - ((f : ℤ) - 32)).toNat = 55 - f := by omega
  have hdown : ((f : ℤ) - 32 - 23).toNat = 0 := by omega
  have hplace : ((f : ℤ) - 32 + 126).toNat = f + 94 := by omega
  have hplaces : (f + 94) * 2 ^ 23 ≤ 149 * 2 ^ 23 := Nat.mul_le_mul_right _ (by omega)
  have hfits : (f + 94) * 2 ^ 23 + divNearestEven (n * 2 ^ (55 - f)) d < 0x7F800000 :=
    (Nat.add_le_add hplaces (divNearestEven_significand_bounds hd hf hlo hhi).2).trans_lt
      (by norm_num)
  simp only [nearestQuotient, if_neg hpos.ne', hmax, hup, hdown, hplace, Nat.shiftLeft_eq, pow_zero,
    Nat.mul_one]
  rw [Nat.min_eq_right hfits.le]
  exact UInt32.toNat_ofNat_of_lt' (hfits.trans (by decide))

/-! ### Values -/

/-- How many units of the least subnormal number a pattern that is not negative counts. -/
def units (p : Nat) : Nat :=
  if p < 0x800000 then p else (0x800000 + p % 0x800000) <<< (p / 0x800000 - 1)

theorem units_eq (p : Nat) :
    units p = if p < 2 ^ 23 then p else (2 ^ 23 + p % 2 ^ 23) * 2 ^ (p / 2 ^ 23 - 1) := by
  rw [units, Nat.shiftLeft_eq]
  rfl

theorem units_lt {p e : Nat} (h : p < (e + 1) * 2 ^ 23) : units p < 2 ^ (e + 24) := by
  have hplace : p / 2 ^ 23 - 1 ≤ e := by omega
  rw [units_eq]
  split_ifs with hsub
  · exact hsub.trans (Nat.pow_lt_pow_right Nat.one_lt_two (by omega))
  · calc (2 ^ 23 + p % 2 ^ 23) * 2 ^ (p / 2 ^ 23 - 1)
        < 2 ^ 24 * 2 ^ (p / 2 ^ 23 - 1) := Nat.mul_lt_mul_of_pos_right (by omega) (by positivity)
      _ ≤ 2 ^ 24 * 2 ^ e := Nat.mul_le_mul_left _ (Nat.pow_le_pow_right Nat.two_pos hplace)
      _ = 2 ^ (e + 24) := by ring

theorem value_eq_units {x : UInt32} (h : x.toNat < 2 ^ 31) :
    value x = (units x.toNat : ℚ) / 2 ^ 149 := by
  have hsign : ¬ (Format.f32.unpack x).sign = 1 := by
    rw [sign_eq_one_iff]
    omega
  have hmagnitude : Format.f32.magnitude x = x.toNat := Nat.mod_eq_of_lt h
  have hunits : Format.f32.units x.toNat = units x.toNat := (units_eq _).symm
  rw [value, Format.f32_fits.value_eq, Format.signum, if_neg hsign, one_mul, hmagnitude,
    Format.absolute, hunits, div_eq_mul_inv]
  rfl

/-- A whole number whose leading one is moved up to bit `p`. -/
theorem mul_two_pow_bounds {n p : Nat} (hn : 0 < n) (h : n.log2 ≤ p) :
    2 ^ p ≤ n * 2 ^ (p - n.log2) ∧ n * 2 ^ (p - n.log2) < 2 ^ (p + 1) := by
  have hpow : 2 ^ n.log2 * 2 ^ (p - n.log2) = 2 ^ p := by
    rw [← pow_add, Nat.add_sub_cancel' h]
  constructor
  · rw [← hpow]
    exact Nat.mul_le_mul_right _ (Nat.log2_self_le hn.ne')
  · calc n * 2 ^ (p - n.log2) < 2 ^ (n.log2 + 1) * 2 ^ (p - n.log2) :=
          Nat.mul_lt_mul_of_pos_right Nat.lt_log2_self (by positivity)
      _ = 2 ^ n.log2 * 2 ^ (p - n.log2) * 2 := by ring
      _ = 2 ^ (p + 1) := by rw [hpow, pow_succ]

/-- A whole number that fits a significand is met exactly. -/
theorem toNat_ofNat_of_lt {n : Nat} (hn : 0 < n) (h : n < 2 ^ 24) :
    (ofNat n).toNat = (n.log2 + 126) * 2 ^ 23 + n * 2 ^ (23 - n.log2) := by
  have hlog : n.log2 ≤ 23 := Nat.le_of_lt_succ ((Nat.log2_lt hn.ne').mpr h)
  obtain ⟨-, hhi⟩ := mul_two_pow_bounds hn hlog
  have hfits : (n.log2 + 126) * 2 ^ 23 + n * 2 ^ (23 - n.log2) < 2 ^ 32 := by omega
  simp only [ofNat, if_neg hn.ne', if_pos hlog, Nat.shiftLeft_eq]
  exact UInt32.toNat_ofNat_of_lt' hfits

theorem toNat_ofNat_lt {n : Nat} (h : n < 2 ^ 24) : (ofNat n).toNat < 151 * 2 ^ 23 := by
  rcases Nat.eq_zero_or_pos n with rfl | hn
  · exact of_decide_eq_true rfl
  · have hlog : n.log2 ≤ 23 := Nat.le_of_lt_succ ((Nat.log2_lt hn.ne').mpr h)
    obtain ⟨-, hhi⟩ := mul_two_pow_bounds hn hlog
    rw [toNat_ofNat_of_lt hn h]
    omega

/-- A whole number that fits a significand is its own nearest integer. -/
theorem nearestMagnitude_ofNat {n : Nat} (h : n < 2 ^ 24) : nearestMagnitude (ofNat n) = n := by
  rcases Nat.eq_zero_or_pos n with rfl | hn
  · exact nearestMagnitude_of_lt (by decide)
  · have hlog : n.log2 ≤ 23 := Nat.le_of_lt_succ ((Nat.log2_lt hn.ne').mpr h)
    obtain ⟨hlo, hhi⟩ := mul_two_pow_bounds hn hlog
    have hx := toNat_ofNat_of_lt hn h
    have hexponent : exponent (ofNat n) = n.log2 + 127 := by
      rw [exponent_eq]
      omega
    have hsignificand : significand (ofNat n) = n * 2 ^ (23 - n.log2) := by
      rw [significand_eq]
      omega
    have hup : n.log2 + 127 - 150 = 0 := by omega
    have hdown : 150 - (n.log2 + 127) = 23 - n.log2 := by omega
    rw [nearestMagnitude, hsignificand, hexponent, hup, hdown, pow_zero, Nat.mul_one,
      divNearestEven_mul _ (by positivity)]

theorem value_ofNat {n : Nat} (h : n < 2 ^ 24) : value (ofNat n) = n := by
  rcases Nat.eq_zero_or_pos n with rfl | hn
  · have hzero : (ofNat 0).toNat = 0 := rfl
    rw [value_eq_units (by rw [hzero]; norm_num), hzero]
    norm_num [units]
  · have hlog : n.log2 ≤ 23 := Nat.le_of_lt_succ ((Nat.log2_lt hn.ne').mpr h)
    obtain ⟨hlo, hhi⟩ := mul_two_pow_bounds hn hlog
    have htoNat := toNat_ofNat_of_lt hn h
    have hunits : units (ofNat n).toNat = n * 2 ^ 149 := by
      have hdiv : (ofNat n).toNat / 2 ^ 23 - 1 = n.log2 + 126 := by omega
      have hmod : 2 ^ 23 + (ofNat n).toNat % 2 ^ 23 = n * 2 ^ (23 - n.log2) := by omega
      have hplace : 23 - n.log2 + (n.log2 + 126) = 149 := by omega
      rw [units_eq, if_neg (by omega), hdiv, hmod, Nat.mul_assoc, ← pow_add, hplace]
    rw [value_eq_units (by omega), hunits]
    push_cast
    exact mul_div_cancel_right₀ _ (by positivity)

/-! ### Sums and quotients -/

/-- A sum is rounded once, from the sum of the counts. -/
theorem add_eq {x y : UInt32} (hx : x.toNat < 2 ^ 31) (hy : y.toNat < 2 ^ 31) :
    add x y = nearestQuotient (units x.toNat + units y.toNat) (2 ^ 149) := by
  have hsum : value x + value y = ((units x.toNat + units y.toNat : ℕ) : ℚ) / (2 ^ 149 : ℕ) := by
    rw [value_eq_units hx, value_eq_units hy]
    push_cast
    ring
  rw [add, hsum]
  exact nearest_div _ (by positivity)

/-- A quotient of whole numbers is rounded once. -/
theorem div_ofNat {n d : Nat} (hn : n < 2 ^ 24) (hd : 0 < d) (hd' : d < 2 ^ 24) :
    div (ofNat n) (ofNat d) = nearestQuotient n d := by
  rw [div, value_ofNat hn, value_ofNat hd']
  exact nearest_div n hd

end F32

end Lanewise

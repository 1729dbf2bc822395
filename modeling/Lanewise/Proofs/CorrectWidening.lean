/-
Lanewise/Proofs/CorrectWidening.lean

Widening keeps the value.

A narrower format has its numbers among those of single precision, with the significand some
places up and the binade some further on (`Fits.absolute_widened`).  Only the subnormal
numbers of half precision have to be moved up to their leading one, which single precision
has in a binade of its own (`F16.absolute_of_subnormal`).  So a widened finite pattern has the
same sign and a magnitude that stands for the same number (`F16.exists_toNat_toF32`,
`Bf16.absolute_shift`).
-/
import Lanewise.Proofs.CorrectNarrowing

namespace Lanewise

namespace Format

variable {fmt : Format}

/-- The numbers of a single-precision binade, by their significands. -/
theorem f32_absolute_place {e k : Nat} (he : 1 ≤ e) (hlead : 2 ^ 23 ≤ k ∨ e = 1)
    (hk : k ≤ 2 ^ 24) :
    f32.absolute ((e - 1) * 2 ^ 23 + k) = k * (2 ^ (e - 1) * f32.least) :=
  absolute_place .f32 he hlead hk

/-- Where the significand is `s` places up, and the binade `r` further on, the value is the same. -/
theorem Fits.absolute_widened (hfits : fmt.Fits) {r s : Nat}
    (hleast : fmt.least = 2 ^ (r + s) * f32.least)
    (hplaces : 2 ^ fmt.mantissaBits.toNat * 2 ^ s = 2 ^ 23) {y : UInt32}
    (hlead : 2 ^ fmt.mantissaBits.toNat ≤ fmt.count y ∨ fmt.binade y + r = 1) :
    f32.absolute (fmt.magnitude y * 2 ^ s + r * 2 ^ 23) = fmt.absolute (fmt.magnitude y) := by
  have hone := fmt.one_le_binade y
  have hcount := hfits.count_lt y
  rw [hfits.absolute_magnitude, step, hleast, hfits.magnitude_eq_count]
  generalize fmt.binade y = b at hone hlead ⊢
  generalize fmt.count y = k at hcount hlead ⊢
  generalize 2 ^ fmt.mantissaBits.toNat = P at hplaces hlead hcount ⊢
  obtain ⟨i, rfl⟩ := Nat.exists_eq_add_of_le' hone
  have hplace : ((i + 1 - 1) * P + k) * 2 ^ s + r * 2 ^ 23
      = (i + r + 1 - 1) * 2 ^ 23 + k * 2 ^ s := by
    rw [Nat.add_sub_cancel, Nat.add_sub_cancel, ← hplaces]
    ring
  -- a significand without a leading one is counted in the first binade of both formats
  have hlead' : 2 ^ 23 ≤ k * 2 ^ s ∨ i + r + 1 = 1 := by
    rw [← hplaces]
    exact hlead.imp (Nat.mul_le_mul_right _) (by omega)
  have hcount' : k * 2 ^ s ≤ 2 ^ 24 := by
    calc k * 2 ^ s ≤ 2 * P * 2 ^ s := Nat.mul_le_mul_right _ hcount.le
      _ = 2 * (P * 2 ^ s) := Nat.mul_assoc _ _ _
      _ = 2 ^ 24 := by
        rw [hplaces]
        rfl
  rw [hplace, f32_absolute_place (Nat.le_add_left 1 _) hlead' hcount', Nat.add_sub_cancel,
    Nat.add_sub_cancel]
  push_cast
  ring

end Format

/-! ### Half precision -/

namespace F16

/-- A normal number has its significand thirteen places up, in a binade 112 further on. -/
theorem absolute_of_normal {h : UInt16} (hlo : 2 ^ 10 ≤ h.toNat % 2 ^ 15) :
    Format.f32.absolute (h.toNat % 2 ^ 15 * 2 ^ 13 + 112 * 2 ^ 23)
      = Format.f16.absolute (Format.f16.magnitude h.toUInt32) := by
  have hmagnitude : h.toNat % 2 ^ 15
      = (Format.f16.binade h.toUInt32 - 1) * 2 ^ 10 + Format.f16.count h.toUInt32 :=
    Format.f16_fits.magnitude_eq_count h.toUInt32
  have hlead : 2 ^ 10 ≤ Format.f16.count h.toUInt32 := by
    rcases Format.f16.le_count_or h.toUInt32 with hle | hfirst
    · exact hle
    · rw [hfirst] at hmagnitude
      omega
  have hleast : Format.f16.least = 2 ^ (112 + 13) * Format.f32.least := least_eq
  exact Format.f16_fits.absolute_widened (y := h.toUInt32) hleast (by decide) (.inl hlead)

/-- A subnormal number has its leading one where the binade of its size has it. -/
theorem absolute_of_subnormal {m : Nat} (hpos : 0 < m) (hm : m < 2 ^ 10) :
    Format.f32.absolute ((m.log2 + 102) * 2 ^ 23 + m * 2 ^ (23 - m.log2))
      = Format.f16.absolute m := by
  have hlog : m.log2 ≤ 9 := Nat.le_of_lt_succ ((Nat.log2_lt hpos.ne').mpr hm)
  obtain ⟨hlead, hnext⟩ := F32.mul_two_pow_bounds (p := 23) hpos (by omega)
  have hunits : Format.f16.units m = m := if_pos hm
  have hpow : (2 : ℚ) ^ (23 - m.log2) * 2 ^ (m.log2 + 102) = 2 ^ 125 := by
    rw [← pow_add]
    congr 1
    omega
  have hplace : m.log2 + 102 = m.log2 + 103 - 1 := rfl
  rw [hplace, Format.f32_absolute_place (by omega) (.inl hlead) hnext.le, ← hplace, Format.absolute,
    hunits, least_eq]
  push_cast
  linear_combination (m * Format.f32.least) * hpow

/-- A finite pattern keeps its sign and its value. -/
theorem exists_toNat_toF32 {h : UInt16} (hfinite : Format.f16.IsFinite h.toUInt32) :
    ∃ m < Format.f32.top, (toF32 h).toNat = h.toNat / 2 ^ 15 * 2 ^ 31 + m ∧
      Format.f32.absolute m = Format.f16.absolute (Format.f16.magnitude h.toUInt32) := by
  have hmagnitude : Format.f16.magnitude h.toUInt32 = h.toNat % 2 ^ 15 := rfl
  have htop : Format.f32.top = 255 * 2 ^ 23 := rfl
  have hless : h.toNat % 2 ^ 15 < 31 * 2 ^ 10 := (Format.f16_fits.isFinite_iff _).mp hfinite
  -- every number but zero has its leading one in single precision
  rcases Nat.eq_zero_or_pos (h.toNat % 2 ^ 15) with hzero | hpos
  · refine ⟨0, by decide, by rw [toNat_toF32_of_zero hzero, Nat.add_zero], ?_⟩
    rw [hmagnitude, hzero, Format.absolute_zero, Format.absolute_zero]
  rcases Nat.lt_or_ge (h.toNat % 2 ^ 15) (2 ^ 10) with hsub | hnormal
  · have hlog := Nat.le_of_lt_succ ((Nat.log2_lt (k := 10) hpos.ne').mpr hsub)
    obtain ⟨-, hnext⟩ := F32.mul_two_pow_bounds (p := 23) hpos (by omega)
    exact ⟨_, by omega, toNat_toF32_of_subnormal hpos hsub, absolute_of_subnormal hpos hsub⟩
  · exact ⟨_, by omega, toNat_toF32_of_normal hnormal hless, absolute_of_normal hnormal⟩

end F16

/-! ### The upper half -/

namespace Bf16

/-- The binades are those of single precision, with significands sixteen places up. -/
theorem absolute_shift (b : UInt16) : Format.f32.absolute (b.toNat % 2 ^ 15 * 2 ^ 16)
    = Format.bf16.absolute (Format.bf16.magnitude b.toUInt32) := by
  have hleast : Format.bf16.least = 2 ^ (0 + 16) * Format.f32.least := least_eq
  have hwidened := Format.bf16_fits.absolute_widened hleast (by decide)
    (Format.bf16.le_count_or b.toUInt32)
  rwa [Nat.zero_mul, Nat.add_zero] at hwidened

end Bf16

end Lanewise

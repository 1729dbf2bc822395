/-
Lanewise/Proofs/Values.lean

Patterns as numbers, and the values they stand for.

Without its sign, a pattern is a number, its `magnitude`.  The classes of patterns are
intervals of magnitudes: the finite ones lie below `top`, the infinities are `top`, and
the NaNs lie past it (`Fits.isFinite_iff`, `Fits.isInfinite_iff`, `Fits.isNaN_iff`).

A finite pattern's value is a whole number of least subnormal numbers:

    value = ± units (magnitude) * least

(`Fits.value_eq`).  Within a binade, that is, from one power of two to the next, the value
goes up by one `step` as the magnitude goes up by one, and the last step leads to the first
number of the next binade (`absolute_place`): this is why a carry out of the mantissa may
run into the exponent.
-/
import Lanewise.Proofs.Words

namespace Lanewise.Format

variable {fmt : Format}

/-! ### Classes -/

/-- Neither a NaN nor an infinity. -/
def IsFinite (fmt : Format) (bits : UInt32) : Prop :=
  fmt.isNaN bits = false ∧ fmt.isInfinite bits = false

instance (fmt : Format) (bits : UInt32) : Decidable (fmt.IsFinite bits) :=
  inferInstanceAs (Decidable (_ ∧ _))

/-- The number of a pattern without its sign. -/
def magnitude (fmt : Format) (bits : UInt32) : Nat :=
  bits.toNat % 2 ^ (fmt.exponentBits.toNat + fmt.mantissaBits.toNat)

/-- The magnitude of the infinities. -/
def top (fmt : Format) : Nat := (2 ^ fmt.exponentBits.toNat - 1) * 2 ^ fmt.mantissaBits.toNat

/-- The magnitudes of NaNs fill the rest of the width. -/
theorem top_add (fmt : Format) : fmt.top + 2 ^ fmt.mantissaBits.toNat
    = 2 ^ (fmt.exponentBits.toNat + fmt.mantissaBits.toNat) := by
  rw [top, pow_add, Nat.sub_one_mul, Nat.sub_add_cancel (Nat.le_mul_of_pos_left _ (by positivity))]

theorem top_lt (fmt : Format) :
    fmt.top < 2 ^ (fmt.exponentBits.toNat + fmt.mantissaBits.toNat) := by
  rw [← top_add]
  exact Nat.lt_add_of_pos_right (by positivity)

/-- Every pattern is finite, an infinity or a NaN. -/
theorem class_cases (fmt : Format) (bits : UInt32) :
    fmt.IsFinite bits ∨ fmt.isInfinite bits = true ∨ fmt.isNaN bits = true := by
  rw [IsFinite]
  rcases fmt.isNaN bits <;> rcases fmt.isInfinite bits <;> simp

namespace Fits

/-- The magnitude is the exponent with the mantissa below it. -/
theorem magnitude_eq (h : fmt.Fits) (bits : UInt32) :
    fmt.magnitude bits = (fmt.unpack bits).exponent.toNat * 2 ^ fmt.mantissaBits.toNat
      + (fmt.unpack bits).mantissa.toNat := by
  rw [magnitude, h.toNat_exponent, h.toNat_mantissa, Nat.add_comm fmt.exponentBits.toNat, pow_add,
    Nat.mod_mul]
  ring

theorem magnitude_mod_two (h : fmt.Fits) (bits : UInt32) :
    fmt.magnitude bits % 2 = bits.toNat % 2 := by
  have hpos := h.mantissa_pos
  exact Nat.mod_mod_of_dvd _ (dvd_pow_self 2 (by omega))

theorem magnitude_mod_mantissa (h : fmt.Fits) (bits : UInt32) :
    fmt.magnitude bits % 2 ^ fmt.mantissaBits.toNat = (fmt.unpack bits).mantissa.toNat := by
  rw [h.toNat_mantissa]
  exact Nat.mod_mod_of_dvd _ (pow_dvd_pow 2 (Nat.le_add_left _ _))

theorem mantissa_lt (h : fmt.Fits) (bits : UInt32) :
    (fmt.unpack bits).mantissa.toNat < 2 ^ fmt.mantissaBits.toNat := by
  rw [h.toNat_mantissa]
  exact Nat.mod_lt _ (by positivity)

theorem exponent_lt (h : fmt.Fits) (bits : UInt32) :
    (fmt.unpack bits).exponent.toNat < 2 ^ fmt.exponentBits.toNat := by
  rw [h.toNat_exponent]
  exact Nat.mod_lt _ (by positivity)

theorem exponent_eq_max_iff (h : fmt.Fits) (bits : UInt32) :
    (fmt.unpack bits).exponent = fmt.exponentMax ↔ fmt.top ≤ fmt.magnitude bits := by
  have hlow := h.mantissa_lt bits
  have hhigh := h.exponent_lt bits
  rw [← UInt32.toNat_inj, h.toNat_exponentMax, h.magnitude_eq, top]
  constructor
  · intro heq
    rw [heq]
    exact Nat.le_add_right _ _
  · intro hle
    -- with a smaller exponent, no mantissa reaches the top
    have hless : 2 ^ fmt.exponentBits.toNat - 1 < (fmt.unpack bits).exponent.toNat + 1 := by
      by_contra hge
      have hmul := Nat.mul_le_mul_right (2 ^ fmt.mantissaBits.toNat) (Nat.not_lt.mp hge)
      rw [Nat.add_mul] at hmul
      omega
    omega

theorem mantissa_eq_zero_iff (h : fmt.Fits) {bits : UInt32} (htop : fmt.top ≤ fmt.magnitude bits) :
    (fmt.unpack bits).mantissa = 0 ↔ fmt.magnitude bits = fmt.top := by
  have hmax := (h.exponent_eq_max_iff bits).mpr htop
  rw [← UInt32.toNat_inj, h.magnitude_eq, hmax, h.toNat_exponentMax, top]
  show _ = 0 ↔ _
  omega

theorem isInfinite_iff (h : fmt.Fits) (bits : UInt32) :
    fmt.isInfinite bits = true ↔ fmt.magnitude bits = fmt.top := by
  show ((fmt.unpack bits).exponent == fmt.exponentMax && (fmt.unpack bits).mantissa == 0) = true ↔ _
  rw [Bool.and_eq_true, beq_iff_eq, beq_iff_eq, h.exponent_eq_max_iff]
  constructor
  · rintro ⟨htop, hzero⟩
    exact (h.mantissa_eq_zero_iff htop).mp hzero
  · intro heq
    exact ⟨heq.ge, (h.mantissa_eq_zero_iff heq.ge).mpr heq⟩

theorem isNaN_iff (h : fmt.Fits) (bits : UInt32) :
    fmt.isNaN bits = true ↔ fmt.top < fmt.magnitude bits := by
  show ((fmt.unpack bits).exponent == fmt.exponentMax && (fmt.unpack bits).mantissa != 0) = true ↔ _
  rw [Bool.and_eq_true, beq_iff_eq, bne_iff_ne, h.exponent_eq_max_iff]
  constructor
  · rintro ⟨htop, hzero⟩
    exact lt_of_le_of_ne htop (Ne.symm (mt (h.mantissa_eq_zero_iff htop).mpr hzero))
  · intro hlt
    exact ⟨hlt.le, mt (h.mantissa_eq_zero_iff hlt.le).mp hlt.ne'⟩

theorem not_isNaN (h : fmt.Fits) {bits : UInt32} (hle : fmt.magnitude bits ≤ fmt.top) :
    fmt.isNaN bits = false := by
  rw [Bool.eq_false_iff, ne_eq, h.isNaN_iff]
  exact Nat.not_lt.mpr hle

theorem not_isNaN_of_isInfinite (h : fmt.Fits) {bits : UInt32}
    (hinfinite : fmt.isInfinite bits = true) : fmt.isNaN bits = false :=
  h.not_isNaN ((h.isInfinite_iff bits).mp hinfinite).le

theorem not_isInfinite_of_isNaN (h : fmt.Fits) {bits : UInt32} (hnan : fmt.isNaN bits = true) :
    fmt.isInfinite bits = false :=
  Bool.eq_false_iff.mpr fun hinfinite =>
    ne_true_of_eq_false (h.not_isNaN_of_isInfinite hinfinite) hnan

theorem mantissa_pos_of_isNaN (h : fmt.Fits) {bits : UInt32} (hnan : fmt.isNaN bits = true) :
    0 < (fmt.unpack bits).mantissa.toNat := by
  have hpast := (h.isNaN_iff bits).mp hnan
  have hne := mt (h.mantissa_eq_zero_iff hpast.le).mp hpast.ne'
  rw [← UInt32.toNat_inj] at hne
  exact Nat.pos_of_ne_zero hne

/-- What lies past the infinities is the mantissa of a NaN. -/
theorem isNaN_of_magnitude (h : fmt.Fits) {bits : UInt32} {m : Nat} (hpos : 0 < m)
    (hm : m < 2 ^ fmt.mantissaBits.toNat) (hbits : fmt.magnitude bits = fmt.top + m) :
    fmt.isNaN bits = true ∧ (fmt.unpack bits).mantissa.toNat = m := by
  constructor
  · rw [h.isNaN_iff, hbits]
    exact Nat.lt_add_of_pos_right hpos
  · rw [← h.magnitude_mod_mantissa, hbits, top, Nat.mul_add_mod_self_right, Nat.mod_eq_of_lt hm]

theorem isFinite_iff (h : fmt.Fits) (bits : UInt32) :
    fmt.IsFinite bits ↔ fmt.magnitude bits < fmt.top := by
  rw [IsFinite, Bool.eq_false_iff, Bool.eq_false_iff, ne_eq, ne_eq, h.isNaN_iff, h.isInfinite_iff]
  omega

end Fits

/-! ### Binades -/

/-- The exponent of a pattern.  Subnormal patterns share that of the smallest normal ones. -/
def binade (fmt : Format) (bits : UInt32) : Nat := max 1 (fmt.unpack bits).exponent.toNat

/-- The significand of a pattern as a whole number.  Subnormal patterns have no leading one. -/
def count (fmt : Format) (bits : UInt32) : Nat :=
  if (fmt.unpack bits).exponent = 0 then (fmt.unpack bits).mantissa.toNat
  else (fmt.unpack bits).mantissa.toNat + 2 ^ fmt.mantissaBits.toNat

theorem one_le_binade (fmt : Format) (bits : UInt32) : 1 ≤ fmt.binade bits := le_max_left _ _

theorem le_count_or (fmt : Format) (bits : UInt32) :
    2 ^ fmt.mantissaBits.toNat ≤ fmt.count bits ∨ fmt.binade bits = 1 := by
  rw [count, binade]
  split_ifs with hzero
  · right
    rw [hzero]
    rfl
  · exact .inl (Nat.le_add_left _ _)

theorem Fits.count_lt (h : fmt.Fits) (bits : UInt32) :
    fmt.count bits < 2 * 2 ^ fmt.mantissaBits.toNat := by
  have hlow := h.mantissa_lt bits
  rw [count]
  split_ifs <;> omega

/-- The significands of a binade follow those of the binades before it. -/
theorem Fits.magnitude_eq_count (h : fmt.Fits) (bits : UInt32) :
    fmt.magnitude bits
      = (fmt.binade bits - 1) * 2 ^ fmt.mantissaBits.toNat + fmt.count bits := by
  rw [h.magnitude_eq, binade, count]
  by_cases hzero : (fmt.unpack bits).exponent = 0
  · rw [if_pos hzero, hzero]
    rfl
  · have hpos : 1 ≤ (fmt.unpack bits).exponent.toNat := by
      rw [← UInt32.toNat_inj] at hzero
      exact Nat.one_le_iff_ne_zero.mpr hzero
    obtain ⟨i, hi⟩ := Nat.exists_eq_add_of_le hpos
    rw [if_neg hzero, hi, Nat.max_eq_right (Nat.le_add_right 1 i), Nat.add_sub_cancel_left]
    ring

/-! ### Units of the least subnormal number -/

/-- How many units of the least subnormal number a magnitude counts. -/
def units (fmt : Format) (p : Nat) : Nat :=
  if p < 2 ^ fmt.mantissaBits.toNat then p
  else (2 ^ fmt.mantissaBits.toNat + p % 2 ^ fmt.mantissaBits.toNat)
    * 2 ^ (p / 2 ^ fmt.mantissaBits.toNat - 1)

/-- The least subnormal number. -/
def least (fmt : Format) : ℚ := 2 ^ (1 - fmt.bias - fmt.mantissaBits.toNat)

/-- The absolute value that a magnitude stands for. -/
def absolute (fmt : Format) (p : Nat) : ℚ := fmt.units p * fmt.least

/-- The distance of the numbers in a binade. -/
def step (fmt : Format) (e : Nat) : ℚ := 2 ^ (e - 1) * fmt.least

theorem least_pos (fmt : Format) : 0 < fmt.least := zpow_pos two_pos _

theorem step_pos (fmt : Format) (e : Nat) : 0 < fmt.step e := mul_pos (by positivity) fmt.least_pos

theorem absolute_nonneg (fmt : Format) (p : Nat) : 0 ≤ fmt.absolute p :=
  mul_nonneg (Nat.cast_nonneg _) fmt.least_pos.le

theorem absolute_zero (fmt : Format) : fmt.absolute 0 = 0 := by
  rw [absolute, units, if_pos (by positivity), Nat.cast_zero, zero_mul]

/-- In later binades the numbers are at least twice as far apart. -/
theorem two_mul_step_le (fmt : Format) {e e' : Nat} (he : 1 ≤ e) (h : e < e') :
    2 * fmt.step e ≤ fmt.step e' := by
  have hpow : 2 * (2 : ℚ) ^ (e - 1) ≤ 2 ^ (e' - 1) := by
    rw [← pow_succ']
    exact pow_le_pow_right₀ one_le_two (by omega)
  rw [step, step, ← mul_assoc]
  exact mul_le_mul_of_nonneg_right hpow fmt.least_pos.le

/-- Every magnitude is a count in a binade. -/
theorem exists_place (fmt : Format) (p : Nat) :
    ∃ e k, 1 ≤ e ∧ (2 ^ fmt.mantissaBits.toNat ≤ k ∨ e = 1) ∧
      k < 2 * 2 ^ fmt.mantissaBits.toNat ∧ p = (e - 1) * 2 ^ fmt.mantissaBits.toNat + k := by
  have hpos : 0 < 2 ^ fmt.mantissaBits.toNat := by positivity
  generalize 2 ^ fmt.mantissaBits.toNat = P at hpos
  rcases Nat.lt_or_ge p P with hsub | hnormal
  · exact ⟨1, p, le_rfl, .inr rfl, by omega, by rw [Nat.sub_self, Nat.zero_mul, Nat.zero_add]⟩
  · have hone : 1 ≤ p / P := (Nat.one_le_div_iff hpos).mpr hnormal
    have hparts := Nat.div_add_mod' p P
    have hlow : p % P < P := Nat.mod_lt p hpos
    obtain ⟨i, hi⟩ := Nat.exists_eq_add_of_le hone
    refine ⟨p / P, P + p % P, hone, .inl (Nat.le_add_right _ _), by omega, ?_⟩
    rw [hi, Nat.add_mul, Nat.one_mul] at hparts
    rw [hi, Nat.add_sub_cancel_left]
    omega

/-- The numbers of a binade are `2 ^ (e - 1)` units apart, up to the first of the next one. -/
theorem units_place (fmt : Format) {e k : Nat} (he : 1 ≤ e)
    (hlead : 2 ^ fmt.mantissaBits.toNat ≤ k ∨ e = 1)
    (hk : k ≤ 2 * 2 ^ fmt.mantissaBits.toNat) :
    fmt.units ((e - 1) * 2 ^ fmt.mantissaBits.toNat + k) = k * 2 ^ (e - 1) := by
  have hpos : 0 < 2 ^ fmt.mantissaBits.toNat := by positivity
  rw [units]
  generalize 2 ^ fmt.mantissaBits.toNat = P at hlead hk hpos ⊢
  rcases Nat.lt_or_ge k P with hsub | hnormal
  · have hfirst : e = 1 := hlead.resolve_left (Nat.not_le.mpr hsub)
    rw [hfirst, Nat.sub_self, Nat.zero_mul, Nat.zero_add, if_pos hsub, pow_zero, Nat.mul_one]
  obtain ⟨j, rfl⟩ := Nat.exists_eq_add_of_le hnormal
  have hparts : (e - 1) * P + (P + j) = j + e * P := by
    obtain ⟨i, rfl⟩ := Nat.exists_eq_add_of_le he
    rw [Nat.add_sub_cancel_left]
    ring
  have hlarge : ¬ j + e * P < P := by
    have hone : 1 * P ≤ e * P := Nat.mul_le_mul_right P he
    omega
  rw [hparts, if_neg hlarge, Nat.add_mul_mod_self_right, Nat.add_mul_div_right _ _ hpos]
  rcases Nat.lt_or_ge j P with hlt | hcarry
  · rw [Nat.mod_eq_of_lt hlt, Nat.div_eq_of_lt hlt, Nat.zero_add]
  · -- the count is rounded up to the next power of two
    obtain rfl : j = P := by omega
    rw [Nat.mod_self, Nat.div_self hpos, Nat.add_zero, Nat.add_sub_cancel_left, ← Nat.two_mul,
      Nat.mul_comm 2, Nat.mul_assoc, ← pow_succ', Nat.sub_add_cancel he]

theorem absolute_place (fmt : Format) {e k : Nat} (he : 1 ≤ e)
    (hlead : 2 ^ fmt.mantissaBits.toNat ≤ k ∨ e = 1)
    (hk : k ≤ 2 * 2 ^ fmt.mantissaBits.toNat) :
    fmt.absolute ((e - 1) * 2 ^ fmt.mantissaBits.toNat + k) = k * fmt.step e := by
  rw [absolute, units_place fmt he hlead hk, step]
  push_cast
  rw [mul_assoc]

namespace Fits

theorem units_magnitude (h : fmt.Fits) (bits : UInt32) :
    fmt.units (fmt.magnitude bits) = fmt.count bits * 2 ^ (fmt.binade bits - 1) := by
  rw [h.magnitude_eq_count, units_place fmt (fmt.one_le_binade bits) (fmt.le_count_or bits)
    (h.count_lt bits).le]

theorem absolute_magnitude (h : fmt.Fits) (bits : UInt32) :
    fmt.absolute (fmt.magnitude bits) = fmt.count bits * fmt.step (fmt.binade bits) := by
  rw [h.magnitude_eq_count, absolute_place fmt (fmt.one_le_binade bits) (fmt.le_count_or bits)
    (h.count_lt bits).le]

/-- A number of an earlier binade is less than the first one of a binade. -/
theorem absolute_magnitude_lt (h : fmt.Fits) {bits : UInt32} {e : Nat}
    (hbefore : fmt.binade bits < e) :
    fmt.absolute (fmt.magnitude bits) < (2 ^ fmt.mantissaBits.toNat : Nat) * fmt.step e := by
  have hcount : (fmt.count bits : ℚ) < 2 * (2 ^ fmt.mantissaBits.toNat : Nat) := by
    exact_mod_cast h.count_lt bits
  rw [h.absolute_magnitude]
  calc (fmt.count bits : ℚ) * fmt.step (fmt.binade bits)
      < 2 * (2 ^ fmt.mantissaBits.toNat : Nat) * fmt.step (fmt.binade bits) :=
        mul_lt_mul_of_pos_right hcount (fmt.step_pos _)
    _ = (2 ^ fmt.mantissaBits.toNat : Nat) * (2 * fmt.step (fmt.binade bits)) := by ring
    _ ≤ (2 ^ fmt.mantissaBits.toNat : Nat) * fmt.step e :=
        mul_le_mul_of_nonneg_left (two_mul_step_le fmt (fmt.one_le_binade bits) hbefore)
          (Nat.cast_nonneg _)

/-- From a binade on, all numbers are whole multiples of its distance. -/
theorem exists_absolute_magnitude_eq (h : fmt.Fits) {bits : UInt32} {e : Nat} (he : 1 ≤ e)
    (hfrom : e ≤ fmt.binade bits) :
    ∃ k : Nat, fmt.absolute (fmt.magnitude bits) = k * fmt.step e := by
  refine ⟨fmt.count bits * 2 ^ (fmt.binade bits - e), ?_⟩
  have hexponent : fmt.binade bits - 1 = fmt.binade bits - e + (e - 1) := by omega
  rw [h.absolute_magnitude, step, step, hexponent, pow_add]
  push_cast
  ring

end Fits

/-! ### Values -/

/-- The factor of a pattern's sign. -/
def signum (fmt : Format) (bits : UInt32) : ℚ := if (fmt.unpack bits).sign = 1 then -1 else 1

theorem signum_congr {fmt' : Format} {bits bits' : UInt32}
    (h : (fmt.unpack bits).sign = (fmt'.unpack bits').sign) :
    fmt.signum bits = fmt'.signum bits' := by
  rw [signum, signum, h]

theorem signum_eq_or (fmt : Format) (bits : UInt32) :
    fmt.signum bits = 1 ∨ fmt.signum bits = -1 := by
  rw [signum]
  split_ifs
  · exact .inr rfl
  · exact .inl rfl

theorem abs_signum (fmt : Format) (bits : UInt32) : |fmt.signum bits| = 1 := by
  rcases fmt.signum_eq_or bits with h | h
  · rw [h, abs_one]
  · rw [h, abs_neg, abs_one]

/-- A shifted significand is a multiple of a power of two. -/
theorem mkRat_shift_eq (s : Nat) (e : Int) :
    mkRat (s <<< e.toNat : Nat) (1 <<< (-e).toNat) = s * 2 ^ e := by
  rw [Rat.mkRat_eq_div, Nat.shiftLeft_eq, Nat.shiftLeft_eq, Nat.one_mul]
  push_cast
  rcases le_total 0 e with he | he
  · have hneg : (-e).toNat = 0 := by omega
    rw [hneg, pow_zero, div_one, ← zpow_natCast, Int.toNat_of_nonneg he]
  · have hpos : e.toNat = 0 := by omega
    rw [hpos, pow_zero, mul_one, ← zpow_natCast, Int.toNat_of_nonneg (by omega), zpow_neg,
      div_inv_eq_mul]

/-- **The value of a pattern is that of its magnitude**, with its sign. -/
theorem Fits.value_eq (h : fmt.Fits) (bits : UInt32) :
    fmt.value bits = fmt.signum bits * fmt.absolute (fmt.magnitude bits) := by
  have hexponent : (fmt.binade bits : Int) - fmt.bias - fmt.mantissaBits.toNat
      = ((fmt.binade bits - 1 : Nat) : Int) + (1 - fmt.bias - fmt.mantissaBits.toNat) := by
    have := fmt.one_le_binade bits
    omega
  have hvalue : fmt.value bits = if (fmt.unpack bits).sign = 1
      then -((fmt.count bits : ℚ)
        * 2 ^ ((fmt.binade bits : Int) - fmt.bias - fmt.mantissaBits.toNat))
      else fmt.count bits * 2 ^ ((fmt.binade bits : Int) - fmt.bias - fmt.mantissaBits.toNat) := by
    rw [← mkRat_shift_eq, count, ← Nat.one_shiftLeft]
    rfl
  rw [hvalue, h.absolute_magnitude, hexponent, zpow_add₀ two_ne_zero, zpow_natCast, signum, step,
    least]
  split_ifs <;> ring

theorem Fits.abs_value (h : fmt.Fits) (bits : UInt32) :
    |fmt.value bits| = fmt.absolute (fmt.magnitude bits) := by
  rw [h.value_eq, abs_mul, abs_signum, one_mul, abs_of_nonneg (fmt.absolute_nonneg _)]

theorem Fits.value_eq_signum_mul_abs (h : fmt.Fits) (bits : UInt32) :
    fmt.value bits = fmt.signum bits * |fmt.value bits| := by
  rw [h.abs_value, h.value_eq]

end Lanewise.Format

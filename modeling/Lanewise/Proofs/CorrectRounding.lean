/-
Lanewise/Proofs/CorrectRounding.lean

Correct rounding, in any format.

A number is `Counted` in a binade when it is a quotient `n / d` of the distance of the
binade's numbers.  Rounding the quotient to the nearest count rounds the number:

* no pattern of any binade is nearer, and where one is as near the count is even
  (`Counted.nearest`, and `Counted.nearest_signed` with the signs put back);
* the result lies past the finite patterns exactly from half a distance above the greatest
  of them on (`Counted.top_le_rounded_iff`).

`Counted.correct` puts the two together.  A conversion is then correct if it divides the
right count by the right divisor.  Rounding never turns the order of two numbers round, so it
does not matter by which counts a number is given (`Counted.rounded_le`,
`Counted.rounded_unique`).
-/
import Lanewise.Proofs.Rounding
import Lanewise.Proofs.Values

namespace Lanewise.Format

variable {fmt : Format}

/-! ### Rounding within a binade -/

/-- `a` is `n / d` times the distance of the numbers in the binade of `e`, and lies in it;
the first binade reaches down to zero. -/
structure Counted (fmt : Format) (a : ℚ) (e n d : Nat) : Prop where
  one_le : 1 ≤ e
  pos : 0 < d
  lead : 2 ^ fmt.mantissaBits.toNat * d ≤ n ∨ e = 1
  lt : n < 2 * 2 ^ fmt.mantissaBits.toNat * d
  eq : a = n / d * fmt.step e

/-- The magnitude of `n / d` rounded in the binade of `e`. -/
def rounded (fmt : Format) (e n d : Nat) : Nat :=
  (e - 1) * 2 ^ fmt.mantissaBits.toNat + divNearestEven n d

/-- The lowest bit of a rounded magnitude is that of the count. -/
theorem Fits.rounded_mod_two (h : fmt.Fits) (e n d : Nat) :
    fmt.rounded e n d % 2 = divNearestEven n d % 2 := by
  obtain ⟨i, hi⟩ : ∃ i, (e - 1) * 2 ^ fmt.mantissaBits.toNat = 2 * i :=
    Dvd.dvd.mul_left (dvd_pow_self 2 h.mantissa_pos.ne') _
  rw [rounded, hi, Nat.mul_add_mod]

namespace Counted

variable {a : ℚ} {e n d : Nat}

theorem cast_pos (c : fmt.Counted a e n d) : (0 : ℚ) < d := Nat.cast_pos.mpr c.pos

theorem divNearestEven_le (c : fmt.Counted a e n d) :
    divNearestEven n d ≤ 2 * 2 ^ fmt.mantissaBits.toNat :=
  Lanewise.divNearestEven_le c.pos c.lt.le

theorem absolute_rounded (c : fmt.Counted a e n d) :
    fmt.absolute (fmt.rounded e n d) = divNearestEven n d * fmt.step e :=
  absolute_place fmt c.one_le (c.lead.imp_left (le_divNearestEven c.pos)) c.divNearestEven_le

/-- Distances from the number are distances from the quotient, in steps. -/
theorem abs_sub_mul_step (c : fmt.Counted a e n d) (k : ℚ) :
    |a - k * fmt.step e| = |(n : ℚ) / d - k| * fmt.step e := by
  rw [c.eq, ← sub_mul, abs_mul, abs_of_pos (fmt.step_pos e)]

/-- Past the first binade, the number is at least the first one of its binade. -/
theorem first_le (c : fmt.Counted a e n d) (he : e ≠ 1) :
    (2 ^ fmt.mantissaBits.toNat : Nat) * fmt.step e ≤ a := by
  rw [c.eq]
  refine mul_le_mul_of_nonneg_right ?_ (fmt.step_pos e).le
  rw [le_div_iff₀ c.cast_pos]
  exact_mod_cast c.lead.resolve_right he

/-- Before the binade all numbers are farther than its first one. -/
theorem abs_sub_rounded_lt (c : fmt.Counted a e n d) (h : fmt.Fits) {g : UInt32}
    (hbefore : fmt.binade g < e) :
    |a - fmt.absolute (fmt.rounded e n d)| < |a - fmt.absolute (fmt.magnitude g)| := by
  have hone := fmt.one_le_binade g
  have hfirst := c.first_le (by omega)
  -- among the counts is that of the binade's first number
  have hnearest := abs_sub_divNearestEven_le n c.pos (2 ^ fmt.mantissaBits.toNat : Nat)
  rw [Int.cast_natCast] at hnearest
  calc |a - fmt.absolute (fmt.rounded e n d)|
      = |(n : ℚ) / d - divNearestEven n d| * fmt.step e := by
        rw [c.absolute_rounded, c.abs_sub_mul_step]
    _ ≤ |(n : ℚ) / d - (2 ^ fmt.mantissaBits.toNat : Nat)| * fmt.step e :=
        mul_le_mul_of_nonneg_right hnearest (fmt.step_pos e).le
    _ = a - (2 ^ fmt.mantissaBits.toNat : Nat) * fmt.step e := by
        rw [← c.abs_sub_mul_step, abs_of_nonneg (sub_nonneg.mpr hfirst)]
    _ < a - fmt.absolute (fmt.magnitude g) := sub_lt_sub_left (h.absolute_magnitude_lt hbefore) a
    _ ≤ |a - fmt.absolute (fmt.magnitude g)| := le_abs_self _

/-- **The rounded number is the nearest one.**  Any other number is farther, or it is as far
and the rounded count is even. -/
theorem nearest (c : fmt.Counted a e n d) (h : fmt.Fits) (g : UInt32) :
    fmt.absolute (fmt.magnitude g) = fmt.absolute (fmt.rounded e n d) ∨
      |a - fmt.absolute (fmt.rounded e n d)| < |a - fmt.absolute (fmt.magnitude g)| ∨
      |a - fmt.absolute (fmt.rounded e n d)| = |a - fmt.absolute (fmt.magnitude g)| ∧
        divNearestEven n d % 2 = 0 := by
  rcases Nat.lt_or_ge (fmt.binade g) e with hbefore | hfrom
  · exact .inr (.inl (c.abs_sub_rounded_lt h hbefore))
  · -- the other number is a count of the same steps
    obtain ⟨k, hk⟩ := h.exists_absolute_magnitude_eq c.one_le hfrom
    rw [hk, c.absolute_rounded]
    by_cases heq : k = divNearestEven n d
    · exact .inl (by rw [heq])
    · right
      rw [c.abs_sub_mul_step, c.abs_sub_mul_step, mul_lt_mul_iff_left₀ (fmt.step_pos e),
        mul_left_inj' (fmt.step_pos e).ne']
      exact_mod_cast abs_sub_divNearestEven c.pos (k := k) (by exact_mod_cast heq)

end Counted

/-! ### The order of numbers -/

namespace Counted

variable {a a' : ℚ} {e n d e' n' d' : Nat}

/-- A number of an earlier binade is less than one of a later binade. -/
theorem lt_of_binade_lt (c : fmt.Counted a e n d) (c' : fmt.Counted a' e' n' d') (h : e < e') :
    a < a' := by
  have hone := c.one_le
  have hquotient : (n : ℚ) / d < 2 * (2 ^ fmt.mantissaBits.toNat : Nat) := by
    rw [div_lt_iff₀ c.cast_pos]
    exact_mod_cast c.lt
  calc a = n / d * fmt.step e := c.eq
    _ < 2 * (2 ^ fmt.mantissaBits.toNat : Nat) * fmt.step e :=
        mul_lt_mul_of_pos_right hquotient (fmt.step_pos e)
    _ = (2 ^ fmt.mantissaBits.toNat : Nat) * (2 * fmt.step e) := by ring
    _ ≤ (2 ^ fmt.mantissaBits.toNat : Nat) * fmt.step e' :=
        mul_le_mul_of_nonneg_left (two_mul_step_le fmt hone h) (Nat.cast_nonneg _)
    _ ≤ a' := c'.first_le (by omega)

/-- **Rounding keeps the order of numbers.** -/
theorem rounded_le (c : fmt.Counted a e n d) (c' : fmt.Counted a' e' n' d') (h : a ≤ a') :
    fmt.rounded e n d ≤ fmt.rounded e' n' d' := by
  rcases Nat.lt_trichotomy e e' with hbefore | rfl | hpast
  · -- both are next to the first number of the later binade
    have hone := c.one_le
    have hcount := c.divNearestEven_le
    have hfirst := le_divNearestEven c'.pos (c'.lead.resolve_right (by omega))
    rw [rounded, rounded]
    generalize 2 ^ fmt.mantissaBits.toNat = P at hcount hfirst ⊢
    have hmul : (e - 1 + 2) * P ≤ (e' - 1 + 1) * P := Nat.mul_le_mul_right P (by omega)
    rw [Nat.add_mul, Nat.add_mul (e' - 1)] at hmul
    omega
  · rw [c.eq, c'.eq, mul_le_mul_iff_left₀ (fmt.step_pos e), div_le_div_iff₀ c.cast_pos c'.cast_pos]
      at h
    exact Nat.add_le_add_left
      (divNearestEven_le_divNearestEven c.pos c'.pos (by exact_mod_cast h)) _
  · exact absurd h (not_le.mpr (c'.lt_of_binade_lt c hpast))

/-- A number is rounded in one way, whatever it is counted by. -/
theorem rounded_unique (c : fmt.Counted a e n d) (c' : fmt.Counted a e' n' d') :
    fmt.rounded e n d = fmt.rounded e' n' d' :=
  le_antisymm (c.rounded_le c' le_rfl) (c'.rounded_le c le_rfl)

end Counted

/-- A number of the format is counted by its significand, and rounded to itself. -/
theorem exists_counted_absolute (fmt : Format) (p : Nat) :
    ∃ e k, fmt.Counted (fmt.absolute p) e k 1 ∧ fmt.rounded e k 1 = p := by
  obtain ⟨e, k, hone, hlead, hk, rfl⟩ := fmt.exists_place p
  have hexact : divNearestEven k 1 = k := by
    have hmul := divNearestEven_mul k Nat.one_pos
    rwa [Nat.mul_one] at hmul
  refine ⟨e, k, ⟨hone, Nat.one_pos, ?_, ?_, ?_⟩, by rw [rounded, hexact]⟩
  · exact hlead.imp_left fun hle => by rwa [Nat.mul_one]
  · rwa [Nat.mul_one]
  · rw [absolute_place fmt hone hlead hk.le, Nat.cast_one, div_one]

/-! ### Overflow -/

/-- The exponent of the greatest finite numbers. -/
def lastBinade (fmt : Format) : Nat := 2 ^ fmt.exponentBits.toNat - 2

/-- Half way from the greatest finite number to the one that would follow it. -/
def overflow (fmt : Format) : ℚ :=
  (2 * (2 ^ fmt.mantissaBits.toNat : Nat) - 1 / 2) * fmt.step fmt.lastBinade

/-- The infinities come after the last binade. -/
theorem top_eq (hbits : 2 ≤ fmt.exponentBits.toNat) :
    fmt.top = (fmt.lastBinade + 1) * 2 ^ fmt.mantissaBits.toNat ∧ 1 ≤ fmt.lastBinade := by
  have hfour : 2 ^ 2 ≤ 2 ^ fmt.exponentBits.toNat := Nat.pow_le_pow_right Nat.two_pos hbits
  have hlast : fmt.lastBinade + 1 = 2 ^ fmt.exponentBits.toNat - 1 := by
    rw [lastBinade]
    omega
  exact ⟨by rw [top, hlast], by omega⟩

namespace Counted

variable {a : ℚ} {e n d : Nat}

/-- What lies before the last binade is not rounded past it. -/
theorem not_overflow (c : fmt.Counted a e n d) (hlast : e < fmt.lastBinade) :
    fmt.rounded e n d < (fmt.lastBinade + 1) * 2 ^ fmt.mantissaBits.toNat ∧ a < fmt.overflow := by
  have hone := c.one_le
  have hpos : 1 ≤ 2 ^ fmt.mantissaBits.toNat := Nat.one_le_two_pow
  have hcount := c.divNearestEven_le
  have hquotient : (n : ℚ) / d < 2 * (2 ^ fmt.mantissaBits.toNat : Nat) := by
    rw [div_lt_iff₀ c.cast_pos]
    exact_mod_cast c.lt
  have hstep := two_mul_step_le fmt c.one_le hlast
  rw [c.eq, rounded, overflow]
  generalize 2 ^ fmt.mantissaBits.toNat = P at hpos hcount hquotient ⊢
  have hpos' : (1 : ℚ) ≤ P := by exact_mod_cast hpos
  constructor
  · have hmul : (e - 1 + 2) * P < (fmt.lastBinade + 1) * P :=
      Nat.mul_lt_mul_of_pos_right (by omega) hpos
    rw [Nat.add_mul] at hmul
    omega
  · calc (n : ℚ) / d * fmt.step e < 2 * P * fmt.step e :=
          mul_lt_mul_of_pos_right hquotient (fmt.step_pos e)
      _ = P * (2 * fmt.step e) := by ring
      _ ≤ P * fmt.step fmt.lastBinade := mul_le_mul_of_nonneg_left hstep (Nat.cast_nonneg P)
      _ ≤ (2 * P - 1 / 2) * fmt.step fmt.lastBinade :=
          mul_le_mul_of_nonneg_right (by linarith) (fmt.step_pos _).le

/-- In the last binade the rounded count decides. -/
theorem overflow_iff (c : fmt.Counted a fmt.lastBinade n d) :
    (fmt.lastBinade + 1) * 2 ^ fmt.mantissaBits.toNat ≤ fmt.rounded fmt.lastBinade n d
      ↔ fmt.overflow ≤ a := by
  have hone := c.one_le
  have hpos : 1 ≤ 2 ^ fmt.mantissaBits.toNat := Nat.one_le_two_pow
  rw [c.eq, rounded, overflow, mul_le_mul_iff_left₀ (fmt.step_pos _), le_div_iff₀ c.cast_pos]
  generalize 2 ^ fmt.mantissaBits.toNat = P at hpos ⊢
  have hbinade : (fmt.lastBinade + 1) * P ≤ (fmt.lastBinade - 1) * P + divNearestEven n d
      ↔ 2 * P ≤ divNearestEven n d := by
    have hplace : fmt.lastBinade + 1 = fmt.lastBinade - 1 + 2 := by omega
    rw [hplace, Nat.add_mul]
    omega
  have hhalf : ((2 * (2 * P) - 1 : Nat) : ℚ) = 2 * (2 * P) - 1 := by
    rw [Nat.cast_sub (by omega)]
    push_cast
    rfl
  -- the count past the greatest one is even, so it is reached from half a step below
  rw [hbinade, le_divNearestEven_iff c.pos (by omega) (by omega), ← Nat.cast_le (α := ℚ)]
  push_cast [hhalf]
  constructor <;> intro h <;> linarith

/-- What lies past the last binade is rounded to where it is. -/
theorem overflow_of_lt (c : fmt.Counted a e n d) (hlast : fmt.lastBinade < e)
    (hone : 1 ≤ fmt.lastBinade) :
    (fmt.lastBinade + 1) * 2 ^ fmt.mantissaBits.toNat ≤ fmt.rounded e n d ∧ fmt.overflow ≤ a := by
  have hcount := le_divNearestEven c.pos (c.lead.resolve_right (by omega))
  have hfirst := c.first_le (by omega)
  have hstep := two_mul_step_le fmt hone hlast
  rw [rounded, overflow]
  generalize 2 ^ fmt.mantissaBits.toNat = P at hcount hfirst ⊢
  constructor
  · have hmul : (fmt.lastBinade + 1) * P ≤ (e - 1 + 1) * P := Nat.mul_le_mul_right P (by omega)
    rw [Nat.add_mul (e - 1)] at hmul
    omega
  · calc (2 * P - 1 / 2) * fmt.step fmt.lastBinade ≤ 2 * P * fmt.step fmt.lastBinade :=
          mul_le_mul_of_nonneg_right (by linarith) (fmt.step_pos _).le
      _ = P * (2 * fmt.step fmt.lastBinade) := by ring
      _ ≤ P * fmt.step e := mul_le_mul_of_nonneg_left hstep (Nat.cast_nonneg P)
      _ ≤ a := hfirst

/-- **A number is rounded past the finite ones from the overflow threshold on**, and only
from there on. -/
theorem top_le_rounded_iff (c : fmt.Counted a e n d) (hbits : 2 ≤ fmt.exponentBits.toNat) :
    fmt.top ≤ fmt.rounded e n d ↔ fmt.overflow ≤ a := by
  obtain ⟨htop, hone⟩ := top_eq hbits
  rw [htop]
  rcases Nat.lt_trichotomy e fmt.lastBinade with hbefore | rfl | hpast
  · obtain ⟨hrounded, ha⟩ := c.not_overflow hbefore
    exact iff_of_false (Nat.not_le.mpr hrounded) (not_le.mpr ha)
  · exact c.overflow_iff
  · obtain ⟨hrounded, ha⟩ := c.overflow_of_lt hpast hone
    exact iff_of_true hrounded ha

end Counted

/-! ### Signs -/

/-- `h` is the finite pattern nearest to `v`, and even where another number is as near. -/
structure IsNearest (fmt : Format) (v : ℚ) (h : UInt16) : Prop where
  finite : fmt.IsFinite h.toUInt32
  le : ∀ g : UInt16, fmt.IsFinite g.toUInt32 →
    |v - fmt.value h.toUInt32| ≤ |v - fmt.value g.toUInt32|
  even : ∀ g : UInt16, fmt.IsFinite g.toUInt32 → fmt.value g.toUInt32 ≠ fmt.value h.toUInt32 →
    |v - fmt.value g.toUInt32| = |v - fmt.value h.toUInt32| → h.toNat % 2 = 0

namespace Counted

variable {v : ℚ} {e n d : Nat}

/-- Rounding goes no farther than to zero. -/
theorem abs_sub_rounded_le {a : ℚ} (c : fmt.Counted a e n d) (h : fmt.Fits) :
    |a - fmt.absolute (fmt.rounded e n d)| ≤ |a| := by
  have hzero : fmt.absolute (fmt.magnitude 0) = 0 := by
    rw [magnitude, UInt32.toNat_zero, Nat.zero_mod, absolute_zero]
  have hnearest := c.nearest h 0
  rw [hzero, sub_zero] at hnearest
  rcases hnearest with heq | hlt | ⟨heq, -⟩
  · rw [← heq, sub_zero]
  · exact hlt.le
  · exact heq.le

/-- The same with the sign put back: a number of the other sign is farther than zero. -/
theorem nearest_signed (c : fmt.Counted |v| e n d) (h : fmt.Fits) {x : UInt32}
    (hv : v = fmt.signum x * |v|) (hx : fmt.magnitude x = fmt.rounded e n d) (g : UInt32) :
    fmt.value g = fmt.value x ∨ |v - fmt.value x| < |v - fmt.value g| ∨
      |v - fmt.value x| = |v - fmt.value g| ∧ divNearestEven n d % 2 = 0 := by
  have hdist : ∀ b, |v - fmt.signum x * b| = |(|v|) - b| := by
    intro b
    nth_rewrite 1 [hv]
    rw [← mul_sub, abs_mul, abs_signum, one_mul]
  have hself : fmt.value x = fmt.signum x * fmt.absolute (fmt.rounded e n d) := by
    rw [h.value_eq, hx]
  -- zero counts as a number of either sign
  by_cases hsame : fmt.value g = fmt.signum x * fmt.absolute (fmt.magnitude g)
  · rw [hself, hsame, hdist, hdist]
    exact (c.nearest h g).imp_left fun heq => by rw [heq]
  · right; left
    have hopposite : fmt.value g = fmt.signum x * -fmt.absolute (fmt.magnitude g) := by
      rw [h.value_eq] at hsame ⊢
      rcases fmt.signum_eq_or g with hg | hg <;> rcases fmt.signum_eq_or x with hs | hs <;>
        rw [hg, hs] at hsame ⊢
      · exact absurd rfl hsame
      · ring
      · ring
      · exact absurd rfl hsame
    have hpos : 0 < fmt.absolute (fmt.magnitude g) := by
      refine lt_of_le_of_ne (fmt.absolute_nonneg _) fun hzero => hsame ?_
      rw [hopposite, ← hzero, neg_zero]
    rw [hself, hopposite, hdist, hdist, sub_neg_eq_add]
    calc |(|v|) - fmt.absolute (fmt.rounded e n d)| ≤ |(|v|)| := c.abs_sub_rounded_le h
      _ = |v| := abs_abs v
      _ < |v| + fmt.absolute (fmt.magnitude g) := lt_add_of_pos_right _ hpos
      _ ≤ |(|v|) + fmt.absolute (fmt.magnitude g)| := le_abs_self _

/-- **Correct rounding.**  A pattern with the sign of a number and its rounded magnitude, cut
off at that of the infinities, is an infinity from the overflow threshold on and the nearest
pattern below. -/
theorem correct (c : fmt.Counted |v| e n d) (h : fmt.Fits) (hbits : 2 ≤ fmt.exponentBits.toNat)
    {x : UInt16} (hv : v = fmt.signum x.toUInt32 * |v|)
    (hx : fmt.magnitude x.toUInt32 = min fmt.top (fmt.rounded e n d)) :
    (fmt.overflow ≤ |v| → fmt.isInfinite x.toUInt32 = true) ∧
      (|v| < fmt.overflow → fmt.IsNearest v x) := by
  constructor
  · intro hover
    have htop := (c.top_le_rounded_iff hbits).mpr hover
    rw [h.isInfinite_iff, hx, Nat.min_eq_left htop]
  · intro hless
    have htop : fmt.rounded e n d < fmt.top :=
      Nat.not_le.mp (mt (c.top_le_rounded_iff hbits).mp (not_le.mpr hless))
    rw [Nat.min_eq_right htop.le] at hx
    refine ⟨?_, ?_, ?_⟩
    · rw [h.isFinite_iff, hx]
      exact htop
    · intro g _
      rcases c.nearest_signed h hv hx g.toUInt32 with heq | hlt | ⟨heq, -⟩
      · rw [heq]
      · exact hlt.le
      · exact heq.le
    · intro g _ hvalue htie
      rcases c.nearest_signed h hv hx g.toUInt32 with heq | hlt | ⟨-, heven⟩
      · exact absurd heq hvalue
      · exact absurd htie hlt.ne'
      · rw [← UInt16.toNat_toUInt32, ← h.magnitude_mod_two, hx, h.rounded_mod_two]
        exact heven

end Counted

end Lanewise.Format

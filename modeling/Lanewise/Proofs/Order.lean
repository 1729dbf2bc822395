/-
Lanewise/Proofs/Order.lean

The order of patterns, in any format.

`extended` is the value of a pattern, with the infinities at the two ends of the numbers, and
`AtMost a b` says that `a` and `b` are no NaNs and their values are in this order; both zeros
have the same value.  The place of a pattern is its magnitude, counted down from zero where
the sign is set, and the order of values is that of places:

    AtMost a b   iff   neither is a NaN and place a ≤ place b

(`atMost_iff`).  A function that keeps signs and never turns the order of magnitudes round
therefore never turns the order of values round (`signed_le_signed`).
-/
import Mathlib.Order.Monotone.Odd
import Lanewise.Proofs.Values

namespace Lanewise

/-! ### Signed magnitudes -/

/-- A number with a sign. -/
def signed (negative : Prop) [Decidable negative] (n : Nat) : Int := if negative then -n else n

section

variable {p q : Prop} [Decidable p] [Decidable q]

theorem natAbs_signed (n : Nat) : (signed p n).natAbs = n := by
  rw [signed]
  split_ifs <;> omega

/-- Two signed numbers are in the order in which others of the same signs are, if the numbers
without signs are and no number but zero stands for zero. -/
theorem signed_le_signed {m n m' n' : Nat} (hle : m ≤ n → m' ≤ n') (hge : n ≤ m → n' ≤ m')
    (hm : m = 0 → m' = 0) (hn : n = 0 → n' = 0) (h : signed p m ≤ signed q n) :
    signed p m' ≤ signed q n' := by
  rw [signed, signed] at h ⊢
  split_ifs at h ⊢ with hp hq hq
  · have := hge (by omega)
    omega
  · omega
  · have := hm (by omega)
    have := hn (by omega)
    omega
  · have := hle (by omega)
    omega

end

namespace Format

variable (fmt : Format)

/-! ### Magnitudes -/

/-- The magnitude after `p` counts one more step of the binade of `p`. -/
theorem units_strictMono : StrictMono fmt.units := by
  refine strictMono_nat_of_lt_succ fun p => ?_
  obtain ⟨e, k, he, hlead, hk, rfl⟩ := fmt.exists_place p
  rw [Nat.add_assoc, units_place fmt he hlead hk.le,
    units_place fmt he (hlead.imp_left Nat.le_succ_of_le) hk]
  exact Nat.mul_lt_mul_of_pos_right (Nat.lt_succ_self k) (by positivity)

theorem absolute_strictMono : StrictMono fmt.absolute := fun _ _ h =>
  mul_lt_mul_of_pos_right (Nat.cast_lt.mpr (fmt.units_strictMono h)) fmt.least_pos

/-! ### Places -/

/-- Where a pattern stands among the others, with zero in the middle. -/
def place (bits : UInt32) : Int := signed ((fmt.unpack bits).sign = 1) (fmt.magnitude bits)

/-- The value that belongs to a place. -/
def valueAt (p : Int) : ℚ := p.sign * fmt.absolute p.natAbs

theorem valueAt_strictMono : StrictMono fmt.valueAt := by
  refine strictMono_of_odd_strictMonoOn_nonneg (fun p => ?_) fun p hp q hq hpq => ?_
  · rw [valueAt, valueAt, Int.sign_neg, Int.natAbs_neg, Int.cast_neg, neg_mul]
  · have hp' : 0 ≤ p := hp
    have hq' : q.sign = 1 := Int.sign_eq_one_of_pos (by omega)
    have habs : p.natAbs < q.natAbs := by omega
    rw [valueAt, valueAt, hq', Int.cast_one, one_mul]
    rcases hp'.eq_or_lt with rfl | hpos
    · rw [Int.sign_zero, Int.cast_zero, zero_mul]
      exact (fmt.absolute_nonneg 0).trans_lt (fmt.absolute_strictMono habs)
    · rw [Int.sign_eq_one_of_pos hpos, Int.cast_one, one_mul]
      exact fmt.absolute_strictMono habs

theorem Fits.value_eq_valueAt {fmt : Format} (h : fmt.Fits) (bits : UInt32) :
    fmt.value bits = fmt.valueAt (fmt.place bits) := by
  rw [h.value_eq, valueAt, place, natAbs_signed, signum, signed]
  rcases Nat.eq_zero_or_pos (fmt.magnitude bits) with hzero | hpos
  · rw [hzero, absolute_zero, mul_zero, mul_zero]
  · split_ifs
    · rw [Int.sign_neg, Int.sign_eq_one_of_pos (by omega)]
      norm_num
    · rw [Int.sign_eq_one_of_pos (by omega)]
      norm_num

/-! ### The order of values -/

/-- The value of a pattern that is no NaN, infinities included. -/
def extended (bits : UInt32) : WithBot (WithTop ℚ) :=
  if fmt.isInfinite bits then if (fmt.unpack bits).sign = 1 then ⊥ else ⊤
  else ((fmt.value bits : WithTop ℚ) : WithBot (WithTop ℚ))

/-- `a` is at most `b`, as values.  Of a NaN this never holds. -/
structure AtMost (a b : UInt32) : Prop where
  left : fmt.isNaN a = false
  right : fmt.isNaN b = false
  le : fmt.extended a ≤ fmt.extended b

/-- The value that belongs to a place, with the infinities at `top` and `-top`. -/
def extendedAt (p : Int) : WithBot (WithTop ℚ) :=
  if p = fmt.top then ⊤ else if p = -fmt.top then ⊥
  else ((fmt.valueAt p : WithTop ℚ) : WithBot (WithTop ℚ))

theorem extendedAt_le_iff {p q : Int} (htop : 0 < fmt.top) (hp : p.natAbs ≤ fmt.top)
    (hq : q.natAbs ≤ fmt.top) : fmt.extendedAt p ≤ fmt.extendedAt q ↔ p ≤ q := by
  rw [extendedAt, extendedAt]
  split_ifs with hp₁ hq₁ hq₂ hp₂ hq₁ hq₂ hq₁ hq₂
  · exact iff_of_true le_rfl (by omega)
  · exact iff_of_false (by simp) (by omega)
  · exact iff_of_false (by simp) (by omega)
  · exact iff_of_true bot_le (by omega)
  · exact iff_of_true le_rfl (by omega)
  · exact iff_of_true bot_le (by omega)
  · exact iff_of_true le_top (by omega)
  · exact iff_of_false (by simp) (by omega)
  · rw [WithBot.coe_le_coe, WithTop.coe_le_coe, fmt.valueAt_strictMono.le_iff_le]

namespace Fits

variable {fmt} (h : fmt.Fits)

include h

theorem natAbs_place_le {bits : UInt32} (hnan : fmt.isNaN bits = false) :
    (fmt.place bits).natAbs ≤ fmt.top := by
  have hle := mt (h.isNaN_iff bits).mpr (ne_true_of_eq_false hnan)
  rw [place, natAbs_signed]
  exact Nat.not_lt.mp hle

theorem extended_eq (htop : 0 < fmt.top) (bits : UInt32) :
    fmt.extended bits = fmt.extendedAt (fmt.place bits) := by
  have hinfinite : fmt.isInfinite bits = true ↔ (fmt.place bits).natAbs = fmt.top := by
    rw [h.isInfinite_iff, place, natAbs_signed]
  have hsign : 0 < (fmt.place bits).natAbs →
      ((fmt.unpack bits).sign = 1 ↔ fmt.place bits < 0) := by
    rw [place, natAbs_signed, signed]
    intro hpos
    split_ifs with hsign
    · exact iff_of_true hsign (by omega)
    · exact iff_of_false hsign (by omega)
  rw [extended, extendedAt, h.value_eq_valueAt]
  by_cases hend : (fmt.place bits).natAbs = fmt.top
  · rw [if_pos (hinfinite.mpr hend)]
    split_ifs with hneg hp hn hp hn
    · exact absurd ((hsign (by omega)).mp hneg) (by omega)
    · rfl
    · exact absurd hend (by omega)
    · rfl
    · exact absurd ((hsign (by omega)).mpr (by omega)) hneg
    · exact absurd hend (by omega)
  · rw [if_neg (mt hinfinite.mp hend), if_neg (by omega), if_neg (by omega)]

/-- **The order of values is the order of places.** -/
theorem atMost_iff (htop : 0 < fmt.top) {a b : UInt32} : fmt.AtMost a b ↔
    fmt.isNaN a = false ∧ fmt.isNaN b = false ∧ fmt.place a ≤ fmt.place b := by
  have hplaces (ha : fmt.isNaN a = false) (hb : fmt.isNaN b = false) :
      fmt.extended a ≤ fmt.extended b ↔ fmt.place a ≤ fmt.place b := by
    rw [h.extended_eq htop, h.extended_eq htop,
      fmt.extendedAt_le_iff htop (h.natAbs_place_le ha) (h.natAbs_place_le hb)]
  constructor
  · rintro ⟨ha, hb, hle⟩
    exact ⟨ha, hb, (hplaces ha hb).mp hle⟩
  · rintro ⟨ha, hb, hle⟩
    exact ⟨ha, hb, (hplaces ha hb).mpr hle⟩

end Fits

end Format

end Lanewise

/-
Lanewise/Proofs/Rounding.lean

Laws of rounding to nearest.

`divNearestEven n d` lies between any two whole numbers that `n / d` lies between, and
is exact on multiples; these two facts are all that most arguments need.  An even
number of whole divisors may be taken out before rounding, which is how a rounded
pattern is tied to its rounded significand.  `add_half_div` is the usual way to round
without comparing: add one half, or just less where the kept part is even, and drop the
fraction.  `abs_sub_divNearestEven` says what the name promises: every other whole number
is farther from the quotient, or as far and the result is even.
-/
import Mathlib.Tactic
import Lanewise.Rounding

namespace Lanewise

theorem divNearestEven_le {n d b : Nat} (hd : 0 < d) (h : n ≤ b * d) : divNearestEven n d ≤ b := by
  have hn := Nat.div_add_mod' n d
  have hq : n / d ≤ b := Nat.div_le_of_le_mul (by rwa [Nat.mul_comm] at h)
  rcases Nat.lt_or_ge (n / d) b with hlt | hge
  · simp only [divNearestEven]
    split_ifs <;> omega
  · have hqb : n / d = b := le_antisymm hq hge
    have hr : n % d = 0 := by rw [hqb] at hn; omega
    simp only [divNearestEven, hr, hqb]
    rw [if_pos (by omega)]

theorem le_divNearestEven {n d b : Nat} (hd : 0 < d) (h : b * d ≤ n) : b ≤ divNearestEven n d := by
  have hq : b ≤ n / d := (Nat.le_div_iff_mul_le hd).mpr h
  simp only [divNearestEven]
  split_ifs <;> omega

theorem divNearestEven_mul (b : Nat) {d : Nat} (hd : 0 < d) : divNearestEven (b * d) d = b :=
  le_antisymm (divNearestEven_le hd le_rfl) (le_divNearestEven hd le_rfl)

theorem divNearestEven_eq_zero {n d : Nat} (h : 2 * n < d) : divNearestEven n d = 0 := by
  have hlt : n < d := by omega
  rw [divNearestEven, Nat.div_eq_of_lt hlt, Nat.mod_eq_of_lt hlt]
  exact if_pos h

theorem divNearestEven_mono {n m : Nat} (d : Nat) (h : n ≤ m) :
    divNearestEven n d ≤ divNearestEven m d := by
  have hq : n / d ≤ m / d := Nat.div_le_div_right h
  have hn := Nat.div_add_mod n d
  have hm := Nat.div_add_mod m d
  simp only [divNearestEven]
  rcases Nat.eq_or_lt_of_le hq with heq | hlt
  · rw [heq] at hn ⊢
    split_ifs <;> omega
  · split_ifs <;> omega

theorem divNearestEven_mul_mul {g : Nat} (hg : 0 < g) (n d : Nat) :
    divNearestEven (g * n) (g * d) = divNearestEven n d := by
  have hless : ∀ a b, 2 * (g * a) < g * b ↔ 2 * a < b := by
    intro a b
    rw [Nat.mul_left_comm, Nat.mul_lt_mul_left hg]
  have hmore : ∀ a b, g * b < 2 * (g * a) ↔ b < 2 * a := by
    intro a b
    rw [Nat.mul_left_comm, Nat.mul_lt_mul_left hg]
  simp only [divNearestEven, Nat.mul_div_mul_left n d hg, Nat.mul_mod_mul_left, hless, hmore]

/-- Quotients are rounded in their order, whatever they are divided by. -/
theorem divNearestEven_le_divNearestEven {n d n' d' : Nat} (hd : 0 < d) (hd' : 0 < d')
    (h : n * d' ≤ n' * d) : divNearestEven n d ≤ divNearestEven n' d' := by
  rw [← divNearestEven_mul_mul hd' n d, ← divNearestEven_mul_mul hd n' d', Nat.mul_comm d d',
    Nat.mul_comm d' n, Nat.mul_comm d n']
  exact divNearestEven_mono _ h

/-- An even number of whole divisors may be taken out before rounding. -/
theorem divNearestEven_add_mul {a n d : Nat} (hd : 0 < d) (ha : a % 2 = 0) :
    divNearestEven (a * d + n) d = a + divNearestEven n d := by
  have hq : (a * d + n) / d = a + n / d := by
    rw [Nat.add_comm, Nat.add_mul_div_right _ _ hd, Nat.add_comm]
  have hr : (a * d + n) % d = n % d := by
    rw [Nat.add_comm, Nat.add_mul_mod_self_right]
  simp only [divNearestEven, hq, hr]
  split_ifs <;> omega

/-- Adding one half where the kept part is odd, and just less where it is even, makes
dropping the fraction round to nearest. -/
theorem add_half_div (n : Nat) {h : Nat} (hh : 0 < h) :
    (n + (h - 1) + n / (2 * h) % 2) / (2 * h) = divNearestEven n (2 * h) := by
  have hn := Nat.div_add_mod n (2 * h)
  have hr : n % (2 * h) < 2 * h := Nat.mod_lt _ (by omega)
  simp only [divNearestEven]
  generalize n / (2 * h) = q at hn ⊢
  generalize n % (2 * h) = r at hn hr ⊢
  have hsum : n + (h - 1) + q % 2 = (r + (h - 1) + q % 2) + 2 * h * q := by omega
  rw [hsum, Nat.add_mul_div_left _ _ (by omega : 0 < 2 * h), Nat.add_comm _ q]
  rcases Nat.lt_or_ge (r + (h - 1) + q % 2) (2 * h) with hlt | hge
  · rw [Nat.div_eq_of_lt hlt]
    split_ifs <;> omega
  · have h1 : (r + (h - 1) + q % 2) / (2 * h) = 1 :=
      Nat.div_eq_of_lt_le (by omega) (by omega)
    rw [h1]
    split_ifs <;> omega

/-- An even number is reached from the half below it on. -/
theorem le_divNearestEven_iff {n d b : Nat} (hd : 0 < d) (hpos : 0 < b) (heven : b % 2 = 0) :
    b ≤ divNearestEven n d ↔ (2 * b - 1) * d ≤ 2 * n := by
  have hr : n % d < d := Nat.mod_lt n hd
  have hn := (Nat.div_add_mod' n d).symm
  simp only [divNearestEven]
  generalize n / d = q at hn ⊢
  generalize n % d = r at hn hr ⊢
  obtain ⟨c, rfl⟩ : ∃ c, b = c + 1 := ⟨b - 1, by omega⟩
  have hhalf : (2 * (c + 1) - 1) * d = 2 * (c * d) + d := by
    have hsub : 2 * (c + 1) - 1 = 2 * c + 1 := by omega
    rw [hsub]
    ring
  rw [hhalf, hn]
  rcases Nat.lt_trichotomy q c with hlt | rfl | hgt
  · -- far below
    have hmul : (q + 1) * d ≤ c * d := Nat.mul_le_mul_right d hlt
    rw [Nat.add_mul, Nat.one_mul] at hmul
    split_ifs <;> omega
  · split_ifs <;> omega
  · have hmul : (c + 1) * d ≤ q * d := Nat.mul_le_mul_right d hgt
    rw [Nat.add_mul, Nat.one_mul] at hmul
    split_ifs <;> omega

/-! ### Nearest -/

/-- Every other whole number is farther from the quotient, or as far and the result is even.
Distances are multiplied by the divisor. -/
theorem natAbs_sub_divNearestEven {n d : Nat} (hd : 0 < d) {k : Int} (hk : k ≠ divNearestEven n d) :
    (n - divNearestEven n d * d : Int).natAbs < (n - k * d : Int).natAbs ∨
      (n - divNearestEven n d * d : Int).natAbs = (n - k * d : Int).natAbs ∧
        divNearestEven n d % 2 = 0 := by
  have hr : n % d < d := Nat.mod_lt n hd
  have hn : (n : Int) = (n / d : Nat) * d + (n % d : Nat) := by
    exact_mod_cast (Nat.div_add_mod' n d).symm
  simp only [divNearestEven] at hk ⊢
  generalize n / d = q at hk hn ⊢
  generalize n % d = r at hk hn hr ⊢
  -- a whole number `j` above the quotient's integer part is so many divisors away
  have hdist : ∀ j : Int, (n : Int) - (q + j) * d = r - j * d := by
    intro j
    rw [hn]
    ring
  obtain ⟨j, rfl⟩ : ∃ j, k = (q : Int) + j := ⟨k - q, by ring⟩
  have hbelow : j ≤ -1 → j * d ≤ -d := fun h => by nlinarith
  have habove : 2 ≤ j → 2 * (d : Int) ≤ j * d := fun h => by nlinarith
  have h0 := hdist 0
  have h1 := hdist 1
  rw [Int.add_zero, Int.zero_mul] at h0
  rw [Int.one_mul] at h1
  rw [hdist]
  have hplace : j ≤ -1 ∨ j = 0 ∨ j = 1 ∨ 2 ≤ j := by omega
  split_ifs at hk ⊢ with hless hmore
  · left
    rw [h0]
    rcases hplace with h | rfl | rfl | h <;> omega
  · left
    push_cast
    rw [h1]
    rcases hplace with h | rfl | rfl | h <;> omega
  · -- a tie: only the two neighbours are as near, and the even one is taken
    rcases Nat.mod_two_eq_zero_or_one q with heven | hodd
    · rw [heven, Nat.add_zero] at hk ⊢
      rw [h0]
      rcases hplace with h | rfl | rfl | h <;> omega
    · rw [hodd] at hk ⊢
      push_cast at hk ⊢
      rw [h1]
      rcases hplace with h | rfl | rfl | h <;> omega

/-- Times the divisor, a distance from a quotient is one of whole numbers. -/
theorem abs_div_sub_mul (n : Nat) {d : Nat} (hd : 0 < d) (k : Int) :
    |(n : ℚ) / d - k| * d = ((n - k * d : Int).natAbs : ℚ) := by
  have hd' : (0 : ℚ) < d := Nat.cast_pos.mpr hd
  rw [Nat.cast_natAbs, Int.cast_abs, ← abs_of_pos hd', ← abs_mul, abs_of_pos hd', sub_mul,
    div_mul_cancel₀ _ hd'.ne']
  push_cast
  rfl

/-- The result is the whole number nearest to the quotient, and the even one of two. -/
theorem abs_sub_divNearestEven {n d : Nat} (hd : 0 < d) {k : Int} (hk : k ≠ divNearestEven n d) :
    |(n : ℚ) / d - divNearestEven n d| < |(n : ℚ) / d - k| ∨
      |(n : ℚ) / d - divNearestEven n d| = |(n : ℚ) / d - k| ∧ divNearestEven n d % 2 = 0 := by
  have hd' : (0 : ℚ) < d := Nat.cast_pos.mpr hd
  have hself := abs_div_sub_mul n hd (divNearestEven n d)
  rw [Int.cast_natCast] at hself
  rw [← mul_lt_mul_iff_left₀ hd', ← mul_left_inj' hd'.ne', hself, abs_div_sub_mul n hd]
  exact_mod_cast natAbs_sub_divNearestEven hd hk

theorem abs_sub_divNearestEven_le (n : Nat) {d : Nat} (hd : 0 < d) (k : Int) :
    |(n : ℚ) / d - divNearestEven n d| ≤ |(n : ℚ) / d - k| := by
  by_cases hk : k = divNearestEven n d
  · rw [hk, Int.cast_natCast]
  · rcases abs_sub_divNearestEven hd hk with hlt | ⟨heq, -⟩
    · exact hlt.le
    · exact heq.le

end Lanewise

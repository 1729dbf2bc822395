/-
Lanewise/Proofs/Words.lean

Words as numbers.

The definitions work on 32-bit words with shifts and masks; the arguments about them
are arithmetic on `Nat`.  Here are the translations: a shift is a quotient, a low mask
is a remainder, a cleared low part is a multiple of a power of two
(`toNat_clear_low`), and the three fields of a pattern are digits of its number, in every
format whose fields fill its width (`Format.Fits.toNat_sign`,
`Format.Fits.toNat_exponent`, `Format.Fits.toNat_mantissa`; `Format.Fits.toNat_pack`).
-/
import Mathlib.Data.Nat.Bitwise
import Mathlib.Tactic
import Lanewise.F32

namespace Lanewise

/-! ### Shifts and masks -/

theorem toNat_and_one (x : UInt32) : (x &&& 1).toNat = x.toNat % 2 := by
  rw [UInt32.toNat_and]
  exact Nat.and_two_pow_sub_one_eq_mod x.toNat 1

theorem toNat_one_shiftLeft {k : UInt32} (hk : k.toNat < 32) :
    ((1 : UInt32) <<< k).toNat = 2 ^ k.toNat := by
  have hlt : 2 ^ k.toNat < 2 ^ 32 := Nat.pow_lt_pow_right (by norm_num) hk
  rw [UInt32.toNat_shiftLeft, Nat.mod_eq_of_lt hk]
  simpa [Nat.shiftLeft_eq] using hlt

theorem toNat_shiftRight_of_lt (x : UInt32) {k : UInt32} (hk : k.toNat < 32) :
    (x >>> k).toNat = x.toNat / 2 ^ k.toNat := by
  rw [UInt32.toNat_shiftRight, Nat.mod_eq_of_lt hk, Nat.shiftRight_eq_div_pow]

theorem toNat_shiftLeft_of_lt {x k : UInt32} (hk : k.toNat < 32)
    (hx : x.toNat * 2 ^ k.toNat < 2 ^ 32) : (x <<< k).toNat = x.toNat * 2 ^ k.toNat := by
  rw [UInt32.toNat_shiftLeft, Nat.mod_eq_of_lt hk, Nat.shiftLeft_eq, Nat.mod_eq_of_lt hx]

theorem toNat_low_mask {k : UInt32} (hk : k.toNat < 32) :
    ((1 : UInt32) <<< k - 1).toNat = 2 ^ k.toNat - 1 := by
  have h1 : 1 ≤ (1 : UInt32) <<< k := by
    rw [UInt32.le_iff_toNat_le, toNat_one_shiftLeft hk]
    exact Nat.one_le_two_pow
  rw [UInt32.toNat_sub_of_le _ _ h1, toNat_one_shiftLeft hk]
  rfl

/-- Clearing the low bits goes down to a multiple of a power of two. -/
theorem toNat_clear_low (x : UInt32) {k : UInt32} (hk : k.toNat < 32) :
    (x &&& ~~~((1 : UInt32) <<< k - 1)).toNat = x.toNat / 2 ^ k.toNat * 2 ^ k.toNat := by
  have hlt : 2 ^ k.toNat - 1 < 2 ^ 32 :=
    lt_of_le_of_lt (Nat.sub_le _ _) (Nat.pow_lt_pow_right (by norm_num) hk)
  have hmask : (~~~((1 : UInt32) <<< k - 1)).toNat = 2 ^ 32 - ((2 ^ k.toNat - 1) + 1) := by
    rw [UInt32.toNat_not, toNat_low_mask hk]
    show 2 ^ 32 - 1 - (2 ^ k.toNat - 1) = _
    omega
  rw [UInt32.toNat_and, hmask, ← Nat.shiftRight_eq_div_pow, ← Nat.shiftLeft_eq]
  apply Nat.eq_of_testBit_eq
  intro i
  rw [Nat.testBit_and, Nat.testBit_two_pow_sub_succ hlt, Nat.testBit_two_pow_sub_one,
    Nat.testBit_shiftLeft, Nat.testBit_shiftRight]
  by_cases hi : i < k.toNat
  · simp [hi, Nat.not_le.mpr hi]
  · have hki : k.toNat ≤ i := Nat.not_lt.mp hi
    by_cases h32 : i < 32
    · simp [hi, hki, h32]
    · have hx : x.toNat.testBit i = false :=
        Nat.testBit_lt_two_pow (lt_of_lt_of_le x.toNat_lt (Nat.pow_le_pow_right (by norm_num)
          (Nat.not_lt.mp h32)))
      simp [hi, hki, hx]

theorem toNat_and_byte (x : UInt32) : (x &&& 0xFF).toNat = x.toNat % 2 ^ 8 := by
  rw [UInt32.toNat_and]
  exact Nat.and_two_pow_sub_one_eq_mod x.toNat 8

/-- A number with places below it needs no more places than both. -/
theorem mul_two_pow_add_lt {a b i j : Nat} (ha : a < 2 ^ i) (hb : b < 2 ^ j) :
    a * 2 ^ j + b < 2 ^ (i + j) :=
  calc a * 2 ^ j + b
      < a * 2 ^ j + 2 ^ j := Nat.add_lt_add_left hb _
    _ = (a + 1) * 2 ^ j := (Nat.succ_mul a (2 ^ j)).symm
    _ ≤ 2 ^ i * 2 ^ j := Nat.mul_le_mul_right _ ha
    _ = 2 ^ (i + j) := (pow_add 2 i j).symm

/-- Setting low bits leaves what lies above them. -/
theorem or_eq_of_lt (n : Nat) {q k : Nat} (hq : q < 2 ^ k) :
    n ||| q = n / 2 ^ k * 2 ^ k + (n % 2 ^ k ||| q) := by
  have hlow : n % 2 ^ k < 2 ^ k := Nat.mod_lt _ (by positivity)
  rw [Nat.mul_comm, Nat.two_pow_add_eq_or_of_lt (Nat.or_lt_two_pow hlow hq), ← Nat.or_assoc,
    ← Nat.two_pow_add_eq_or_of_lt hlow, Nat.div_add_mod]

/-- Turning the topmost bit round leaves what lies below it. -/
theorem xor_two_pow_digits {n k : Nat} (hn : n < 2 * 2 ^ k) :
    (n ^^^ 2 ^ k) / 2 ^ k = 1 - n / 2 ^ k ∧ (n ^^^ 2 ^ k) % 2 ^ k = n % 2 ^ k := by
  have hbit : n / 2 ^ k < 2 := Nat.div_lt_of_lt_mul (by rwa [Nat.mul_comm] at hn)
  rw [Nat.xor_div_two_pow, Nat.xor_mod_two_pow, Nat.div_self (by positivity), Nat.mod_self,
    Nat.xor_zero]
  refine ⟨?_, rfl⟩
  interval_cases n / 2 ^ k <;> rfl

/-! ### Integers as words -/

theorem toNat_word_ofInt (n : Int) : (UInt32.ofInt n).toNat = (n % 2 ^ 32).toNat := by
  rw [UInt32.ofInt, UInt32.toNat_ofNat', Nat.mod_eq_of_lt]
  omega

theorem toNat_word_mod (w : UInt32) (k : Nat) :
    (UInt32.ofNat (w.toNat % k)).toNat = w.toNat % k := by
  rw [UInt32.toNat_ofNat', Nat.mod_eq_of_lt ((Nat.mod_le _ _).trans_lt w.toNat_lt)]

theorem toNat_byte_ofInt (n : Int) : (UInt8.ofInt n).toNat = (n % 2 ^ 8).toNat := by
  rw [UInt8.ofInt, UInt8.toNat_ofNat', Nat.mod_eq_of_lt]
  omega

/-! ### The fields of a pattern -/

namespace Format

/-- The three fields fill the width, and the width fits a word. -/
structure Fits (fmt : Format) : Prop where
  mantissa_pos : 0 < fmt.mantissaBits.toNat
  width_eq : fmt.width.toNat = 1 + fmt.exponentBits.toNat + fmt.mantissaBits.toNat
  width_le : fmt.width.toNat ≤ 32

theorem f32_fits : f32.Fits := by constructor <;> decide

theorem f16_fits : f16.Fits := by constructor <;> decide

theorem bf16_fits : bf16.Fits := by constructor <;> decide

namespace Fits

variable {fmt : Format}

theorem places_lt (h : fmt.Fits) : fmt.exponentBits.toNat + fmt.mantissaBits.toNat < 32 := by
  obtain ⟨-, hwidth, hle⟩ := h
  omega

theorem toNat_mantissaMask (h : fmt.Fits) :
    fmt.mantissaMask.toNat = 2 ^ fmt.mantissaBits.toNat - 1 := by
  obtain ⟨-, hwidth, hle⟩ := h
  exact toNat_low_mask (by omega)

theorem toNat_quietBit (h : fmt.Fits) : fmt.quietBit.toNat = 2 ^ (fmt.mantissaBits.toNat - 1) := by
  obtain ⟨hpos, hwidth, hle⟩ := h
  have hpred : (fmt.mantissaBits - 1).toNat = fmt.mantissaBits.toNat - 1 :=
    UInt32.toNat_sub_of_le _ _ (UInt32.le_iff_toNat_le.mpr hpos)
  rw [quietBit, toNat_one_shiftLeft (by omega), hpred]

theorem toNat_exponentMax (h : fmt.Fits) :
    fmt.exponentMax.toNat = 2 ^ fmt.exponentBits.toNat - 1 := by
  obtain ⟨hpos, hwidth, hle⟩ := h
  exact toNat_low_mask (by omega)

theorem exponentMax_lt (h : fmt.Fits) : fmt.exponentMax.toNat < 2 ^ fmt.exponentBits.toNat := by
  rw [h.toNat_exponentMax]
  exact Nat.sub_lt (by positivity) Nat.one_pos

theorem toNat_and_exponentMax (h : fmt.Fits) (exponent : UInt32) :
    (exponent &&& fmt.exponentMax).toNat = exponent.toNat % 2 ^ fmt.exponentBits.toNat := by
  rw [UInt32.toNat_and, h.toNat_exponentMax, Nat.and_two_pow_sub_one_eq_mod]

theorem toNat_signShift (h : fmt.Fits) :
    fmt.signShift.toNat = fmt.exponentBits.toNat + fmt.mantissaBits.toNat := by
  obtain ⟨-, hwidth, -⟩ := h
  have hone : (1 : UInt32).toNat = 1 := rfl
  rw [signShift, UInt32.toNat_sub_of_le _ _ (UInt32.le_iff_toNat_le.mpr (by omega)), hone]
  omega

theorem toNat_sign (h : fmt.Fits) (bits : UInt32) :
    (fmt.unpack bits).sign.toNat
      = bits.toNat / 2 ^ (fmt.exponentBits.toNat + fmt.mantissaBits.toNat) % 2 := by
  have hshift := h.toNat_signShift
  obtain ⟨-, hwidth, hle⟩ := h
  rw [unpack, toNat_and_one, toNat_shiftRight_of_lt _ (by omega), hshift]

theorem sign_le_one (h : fmt.Fits) (bits : UInt32) : (fmt.unpack bits).sign.toNat ≤ 1 := by
  rw [h.toNat_sign]
  omega

theorem toNat_exponent (h : fmt.Fits) (bits : UInt32) :
    (fmt.unpack bits).exponent.toNat
      = bits.toNat / 2 ^ fmt.mantissaBits.toNat % 2 ^ fmt.exponentBits.toNat := by
  have hplaces := h.places_lt
  rw [unpack, h.toNat_and_exponentMax, toNat_shiftRight_of_lt _ (by omega)]

theorem toNat_mantissa (h : fmt.Fits) (bits : UInt32) :
    (fmt.unpack bits).mantissa.toNat = bits.toNat % 2 ^ fmt.mantissaBits.toNat := by
  rw [unpack, UInt32.toNat_and, h.toNat_mantissaMask, Nat.and_two_pow_sub_one_eq_mod]

theorem placed_sign_lt (h : fmt.Fits) (sign : UInt32) :
    (sign &&& 1).toNat * 2 ^ fmt.signShift.toNat < 2 ^ 32 := by
  have hplaces := h.places_lt
  have hbit : (sign &&& 1).toNat < 2 := by
    rw [toNat_and_one]
    exact Nat.mod_lt _ Nat.two_pos
  rw [h.toNat_signShift]
  calc (sign &&& 1).toNat * 2 ^ (fmt.exponentBits.toNat + fmt.mantissaBits.toNat)
      < 2 * 2 ^ (fmt.exponentBits.toNat + fmt.mantissaBits.toNat) :=
        Nat.mul_lt_mul_of_pos_right hbit (by positivity)
    _ = 2 ^ (fmt.exponentBits.toNat + fmt.mantissaBits.toNat + 1) := (pow_succ' _ _).symm
    _ ≤ 2 ^ 32 := Nat.pow_le_pow_right Nat.two_pos hplaces

theorem placed_exponent_lt (h : fmt.Fits) (exponent : UInt32) :
    (exponent &&& fmt.exponentMax).toNat * 2 ^ fmt.mantissaBits.toNat < 2 ^ 32 := by
  have hfield : (exponent &&& fmt.exponentMax).toNat < 2 ^ fmt.exponentBits.toNat := by
    rw [h.toNat_and_exponentMax]
    exact Nat.mod_lt _ (by positivity)
  calc (exponent &&& fmt.exponentMax).toNat * 2 ^ fmt.mantissaBits.toNat
      < 2 ^ fmt.exponentBits.toNat * 2 ^ fmt.mantissaBits.toNat :=
        Nat.mul_lt_mul_of_pos_right hfield (by positivity)
    _ = 2 ^ (fmt.exponentBits.toNat + fmt.mantissaBits.toNat) := (pow_add _ _ _).symm
    _ ≤ 2 ^ 32 := Nat.pow_le_pow_right Nat.two_pos h.places_lt.le

/-- Packed fields are digits of the pattern's number.  A field too wide for its place is taken
modulo a power of two. -/
theorem toNat_pack (h : fmt.Fits) (f : Fields) :
    (fmt.pack f).toNat
      = f.sign.toNat % 2 * 2 ^ (fmt.exponentBits.toNat + fmt.mantissaBits.toNat)
        + (f.exponent.toNat % 2 ^ fmt.exponentBits.toNat * 2 ^ fmt.mantissaBits.toNat
          + f.mantissa.toNat % 2 ^ fmt.mantissaBits.toNat) := by
  have hmantissa : f.mantissa.toNat % 2 ^ fmt.mantissaBits.toNat < 2 ^ fmt.mantissaBits.toNat :=
    Nat.mod_lt _ (by positivity)
  have hrest := mul_two_pow_add_lt
    (Nat.mod_lt f.exponent.toNat (Nat.two_pow_pos fmt.exponentBits.toNat)) hmantissa
  have hplaces := h.places_lt
  have hshift := h.toNat_signShift
  have hsign : ((f.sign &&& 1) <<< fmt.signShift).toNat
      = f.sign.toNat % 2 * 2 ^ (fmt.exponentBits.toNat + fmt.mantissaBits.toNat) := by
    rw [toNat_shiftLeft_of_lt (by omega) (h.placed_sign_lt _), toNat_and_one, hshift]
  have hexponent : ((f.exponent &&& fmt.exponentMax) <<< fmt.mantissaBits).toNat
      = f.exponent.toNat % 2 ^ fmt.exponentBits.toNat * 2 ^ fmt.mantissaBits.toNat := by
    rw [toNat_shiftLeft_of_lt (by omega) (h.placed_exponent_lt _), h.toNat_and_exponentMax]
  -- no field has a bit in the place of another, so they are added as they are joined
  rw [pack, UInt32.toNat_or, UInt32.toNat_or, hsign, hexponent, UInt32.toNat_and,
    h.toNat_mantissaMask, Nat.and_two_pow_sub_one_eq_mod, Nat.or_assoc,
    Nat.mul_comm _ (2 ^ fmt.mantissaBits.toNat), ← Nat.two_pow_add_eq_or_of_lt hmantissa,
    Nat.mul_comm (2 ^ fmt.mantissaBits.toNat),
    Nat.mul_comm _ (2 ^ (fmt.exponentBits.toNat + fmt.mantissaBits.toNat)),
    ← Nat.two_pow_add_eq_or_of_lt hrest]

end Fits

end Format

namespace F32

theorem toNat_sign (x : UInt32) : (Format.f32.unpack x).sign.toNat = x.toNat / 2 ^ 31 := by
  have hx := x.toNat_lt
  have hsign : (Format.f32.unpack x).sign.toNat = x.toNat / 2 ^ 31 % 2 :=
    Format.f32_fits.toNat_sign x
  omega

theorem sign_le_one (x : UInt32) : (Format.f32.unpack x).sign.toNat ≤ 1 :=
  Format.f32_fits.sign_le_one x

theorem toNat_exponent (x : UInt32) :
    (Format.f32.unpack x).exponent.toNat = x.toNat / 2 ^ 23 % 2 ^ 8 :=
  Format.f32_fits.toNat_exponent x

theorem toNat_mantissa (x : UInt32) :
    (Format.f32.unpack x).mantissa.toNat = x.toNat % 2 ^ 23 :=
  Format.f32_fits.toNat_mantissa x

end F32

end Lanewise

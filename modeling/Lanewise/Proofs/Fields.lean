/-
Lanewise/Proofs/Fields.lean

Fields and patterns.

In a format whose fields fill its width, the places of the fields do not overlap and leave no
bit of the width out.  So packing and unpacking undo each other up to what does not fit:

    pack (unpack bits) = bits mod 2 ^ width        unpack (pack f) = cut f

(`Fits.toNat_pack_unpack`, `Fits.unpack_pack`), where `cut` reduces every field to its place.
Both come from the number of a packed pattern, of which the fields are the digits.  What
`infinity` packs is therefore an infinity, and of the patterns the ones with nothing but ones
for an exponent are the infinities and the NaNs (`isNaN_or_isInfinite_iff`).

The format is arbitrary here: it may have no exponent at all, and its mantissa may reach up
to the sign.
-/
import Lanewise.Proofs.Values
import Lanewise.Proofs.Wrapping

namespace Lanewise.Format

variable {fmt : Format}

/-! ### Fields in their places -/

/-- The fields without the bits that have no place in the format. -/
def cut (fmt : Format) (f : Fields) : Fields where
  sign := UInt32.ofNat (f.sign.toNat % 2)
  exponent := UInt32.ofNat (f.exponent.toNat % 2 ^ fmt.exponentBits.toNat)
  mantissa := UInt32.ofNat (f.mantissa.toNat % 2 ^ fmt.mantissaBits.toNat)

/-- The digits of a packed number: with a sign below two, an exponent and a mantissa in their
places, each digit is read back. -/
theorem digits_of_packed {s x m i j : Nat} (hs : s < 2) (hx : x < 2 ^ i) (hm : m < 2 ^ j) :
    (s * 2 ^ (i + j) + (x * 2 ^ j + m)) / 2 ^ (i + j) % 2 = s ∧
    (s * 2 ^ (i + j) + (x * 2 ^ j + m)) / 2 ^ j % 2 ^ i = x ∧
    (s * 2 ^ (i + j) + (x * 2 ^ j + m)) % 2 ^ j = m := by
  have hrest : x * 2 ^ j + m < 2 ^ (i + j) := mul_two_pow_add_lt hx hm
  have hplaced : s * 2 ^ (i + j) + (x * 2 ^ j + m) = m + (x + s * 2 ^ i) * 2 ^ j := by
    rw [pow_add]
    ring
  refine ⟨?_, ?_, ?_⟩
  · rw [Nat.add_comm, Nat.add_mul_div_right _ _ (by positivity), Nat.div_eq_of_lt hrest,
      Nat.zero_add, Nat.mod_eq_of_lt hs]
  · rw [hplaced, Nat.add_mul_div_right _ _ (by positivity), Nat.div_eq_of_lt hm, Nat.zero_add,
      Nat.add_mul_mod_self_right, Nat.mod_eq_of_lt hx]
  · rw [hplaced, Nat.add_mul_mod_self_right, Nat.mod_eq_of_lt hm]

namespace Fits

/-- Unpacking reads what packing could place. -/
theorem unpack_pack (h : fmt.Fits) (f : Fields) : fmt.unpack (fmt.pack f) = fmt.cut f := by
  obtain ⟨hsign, hexponent, hmantissa⟩ := digits_of_packed (Nat.mod_lt f.sign.toNat Nat.two_pos)
    (Nat.mod_lt f.exponent.toNat (Nat.two_pow_pos fmt.exponentBits.toNat))
    (Nat.mod_lt f.mantissa.toNat (Nat.two_pow_pos fmt.mantissaBits.toNat))
  refine (Fields.mk.injEq ..).mpr
    ⟨UInt32.toNat_inj.mp ?_, UInt32.toNat_inj.mp ?_, UInt32.toNat_inj.mp ?_⟩
  · rw [toNat_word_mod]
    exact (h.toNat_sign _).trans (by rw [h.toNat_pack, hsign])
  · rw [toNat_word_mod]
    exact (h.toNat_exponent _).trans (by rw [h.toNat_pack, hexponent])
  · rw [toNat_word_mod]
    exact (h.toNat_mantissa _).trans (by rw [h.toNat_pack, hmantissa])

/-- Packing puts back every bit of the width. -/
theorem toNat_pack_unpack (h : fmt.Fits) (bits : UInt32) :
    (fmt.pack (fmt.unpack bits)).toNat = bits.toNat % 2 ^ fmt.width.toNat := by
  have hwidth : fmt.width.toNat = fmt.exponentBits.toNat + fmt.mantissaBits.toNat + 1 := by
    have hwidth := h.width_eq
    omega
  have hmagnitude := h.magnitude_eq bits
  rw [h.toNat_pack, Nat.mod_eq_of_lt (h.exponent_lt bits), Nat.mod_eq_of_lt (h.mantissa_lt bits),
    ← hmagnitude, h.toNat_sign, Nat.mod_mod, hwidth, pow_succ, Nat.mod_mul, magnitude]
  ring

theorem pack_unpack (h : fmt.Fits) {bits : UInt32} (hbits : bits.toNat < 2 ^ fmt.width.toNat) :
    fmt.pack (fmt.unpack bits) = bits := by
  rw [← UInt32.toNat_inj, h.toNat_pack_unpack, Nat.mod_eq_of_lt hbits]

/-! ### Infinities and NaNs -/

/-- An infinity's fields; of the sign only the low bit is left. -/
theorem unpack_infinity (h : fmt.Fits) (sign : UInt32) :
    fmt.unpack (fmt.infinity sign) = ⟨UInt32.ofNat (sign.toNat % 2), fmt.exponentMax, 0⟩ := by
  rw [infinity, h.unpack_pack, cut, Nat.mod_eq_of_lt h.exponentMax_lt, UInt32.ofNat_toNat]
  rfl

theorem isInfinite_infinity (h : fmt.Fits) (sign : UInt32) :
    fmt.isInfinite (fmt.infinity sign) = true := by
  rw [isInfinite, h.unpack_infinity]
  simp only [beq_self_eq_true, Bool.and_self]

/-- The exponent is all ones when each of its bits is one. -/
theorem exponent_eq_max_iff_testBit (h : fmt.Fits) (bits : UInt32) :
    (fmt.unpack bits).exponent = fmt.exponentMax ↔
      ∀ i < fmt.exponentBits.toNat, bits.toNat.testBit (fmt.mantissaBits.toNat + i) = true := by
  have hfield : ∀ i, (fmt.unpack bits).exponent.toNat.testBit i
      = (decide (i < fmt.exponentBits.toNat)
        && bits.toNat.testBit (fmt.mantissaBits.toNat + i)) := by
    intro i
    rw [h.toNat_exponent, Nat.testBit_mod_two_pow, Nat.testBit_div_two_pow, Nat.add_comm i]
  rw [← UInt32.toNat_inj, h.toNat_exponentMax]
  constructor
  · intro hmax i hi
    have hbit := hfield i
    rwa [hmax, Nat.testBit_two_pow_sub_one, decide_eq_true hi, Bool.true_and, eq_comm] at hbit
  · intro hones
    refine Nat.eq_of_testBit_eq fun i => ?_
    rw [hfield, Nat.testBit_two_pow_sub_one]
    by_cases hi : i < fmt.exponentBits.toNat
    · rw [hones i hi, Bool.and_true]
    · rw [decide_eq_false hi, Bool.false_and]

/-- A NaN with a bit of its mantissa set is a NaN. -/
theorem isNaN_or_quietBit (h : fmt.Fits) {bits : UInt32} (hnan : fmt.isNaN bits = true) :
    fmt.isNaN (bits ||| fmt.quietBit) = true := by
  rw [h.isNaN_iff] at hnan ⊢
  -- setting a bit makes no magnitude smaller
  refine hnan.trans_le ?_
  rw [magnitude, magnitude, UInt32.toNat_or, Nat.or_mod_two_pow]
  exact Nat.left_le_or

end Fits

theorem isNaN_or_isInfinite_iff (fmt : Format) (bits : UInt32) :
    (fmt.isNaN bits = true ∨ fmt.isInfinite bits = true) ↔
      (fmt.unpack bits).exponent = fmt.exponentMax := by
  rw [isNaN, isInfinite, Bool.and_eq_true, Bool.and_eq_true, ← and_or_left, beq_iff_eq,
    bne_iff_ne, beq_iff_eq]
  exact and_iff_left (ne_or_eq _ _)

/-! ### Every format -/

open Arithmetic in
/-- **Packing and unpacking, in every format whose fields fill its width.**  Packing the fields of
a pattern gives the pattern modulo `2 ^ width`, unpacking packed fields gives the fields reduced
to their places, and no shift or difference on the way loses anything.  An infinity of any sign
is infinite and no NaN; no pattern is both, and it is one of the two exactly if the bits of its
exponent are all ones.  A NaN stays one when its quiet bit is set. -/
theorem pack_unpack_inverse (h : fmt.Fits) :
    (∀ bits, (fmt.pack (fmt.unpack bits)).toNat = bits.toNat % 2 ^ fmt.width.toNat) ∧
    (∀ bits, bits.toNat < 2 ^ fmt.width.toNat → fmt.pack (fmt.unpack bits) = bits) ∧
    (∀ f, fmt.unpack (fmt.pack f) = fmt.cut f) ∧
    (∀ bits, fmt.unpackBy exact bits = some (fmt.unpack bits)) ∧
    (∀ f, fmt.packBy exact f = some (fmt.pack f)) ∧
    (∀ sign, fmt.infinityBy exact sign = some (fmt.infinity sign) ∧
      fmt.isInfinite (fmt.infinity sign) = true ∧ fmt.isNaN (fmt.infinity sign) = false) ∧
    (∀ bits, ¬ (fmt.isNaN bits = true ∧ fmt.isInfinite bits = true)) ∧
    (∀ bits, (fmt.isNaN bits = true ∨ fmt.isInfinite bits = true) ↔
      ∀ i < fmt.exponentBits.toNat, bits.toNat.testBit (fmt.mantissaBits.toNat + i) = true) ∧
    fmt.quietBitBy exact = some fmt.quietBit ∧
    ∀ bits, fmt.isNaN bits = true → fmt.isNaN (bits ||| fmt.quietBit) = true := by
  refine ⟨h.toNat_pack_unpack, fun bits => h.pack_unpack, h.unpack_pack, h.unpackBy_exact,
    h.packBy_exact, fun sign => ⟨h.infinityBy_exact sign, h.isInfinite_infinity sign,
      h.not_isNaN_of_isInfinite (h.isInfinite_infinity sign)⟩, ?_, fun bits => ?_,
    h.quietBitBy_exact, fun bits => h.isNaN_or_quietBit⟩
  · rintro bits ⟨hnan, hinfinite⟩
    exact ne_true_of_eq_false (h.not_isNaN_of_isInfinite hinfinite) hnan
  · rw [isNaN_or_isInfinite_iff, h.exponent_eq_max_iff_testBit]

/-- The widest mantissa below a sign, with no exponent between them. -/
theorem pack_unpack_inverse_of_no_exponent :
    let fmt : Format := ⟨"fixed", 32, 0, 31, 0⟩
    fmt.Fits ∧ fmt.pack (fmt.unpack 0xFFFFFFFF) = 0xFFFFFFFF ∧
      fmt.unpack (fmt.pack ⟨3, 7, 0xC0000001⟩) = ⟨1, 0, 0x40000001⟩ ∧
      fmt.isInfinite (fmt.infinity 5) = true ∧ fmt.isNaN (0x80000001 ||| fmt.quietBit) = true := by
  intro fmt
  have h : fmt.Fits := by constructor <;> decide
  obtain ⟨-, hpack, hunpack, -, -, hinfinity, -, -, -, hquiet⟩ := pack_unpack_inverse h
  refine ⟨h, hpack _ (by decide), (hunpack ⟨3, 7, 0xC0000001⟩).trans (by decide),
    (hinfinity 5).2.1, hquiet 0x80000001 (by decide)⟩

end Lanewise.Format

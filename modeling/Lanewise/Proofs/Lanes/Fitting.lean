/-
Lanewise/Proofs/Lanes/Fitting.lean

Lanes fit the types that they are narrowed to.

A result leaves its lane of 32 bits as a word or as a byte.  The 128-bit and 256-bit kernels
pack, which clamps a lane as a signed number; the 512-bit kernels truncate.  Either is right
only if it has nothing to do.  The formulas leave the scalar result widened with zeros
(`bf16_eq`, `saturated_eq`, `wrapped_eq`), so the lanes lie in the range of the narrow type,
and packing or truncating whole registers gives the scalar results of their lanes:
`word_lanes` and `byte_lanes`.
-/
import Lanewise.Proofs.Families

namespace Lanewise.Lanes

theorem toUInt32_le_of_word (w : UInt16) : w.toUInt32 ≤ 0xFFFF := by
  rw [UInt32.le_iff_toNat_le, UInt16.toNat_toUInt32]
  exact Nat.le_of_lt_succ w.toNat_lt

theorem toUInt32_le_of_byte (b : UInt8) : b.toUInt32 ≤ 0xFF := by
  rw [UInt32.le_iff_toNat_le, UInt8.toNat_toUInt32]
  exact Nat.le_of_lt_succ b.toNat_lt

/-! ### Words -/

theorem clampWord_bf16 (x : UInt32) : clampWord (bf16 x) = Bf16.ofF32 x := by
  rw [bf16_eq, clampWord_toUInt32]

theorem toUInt16_bf16 (x : UInt32) : (bf16 x).toUInt16 = Bf16.ofF32 x := by
  rw [bf16_eq, UInt16.toUInt16_toUInt32]

/-- **The bf16 formula is the scalar conversion.**  The bias wraps around for no number and no
infinity.  The lane is a word already, so neither a pack nor a truncation changes it, and a
pack of lanes holds the scalar results of the lanes that it takes. -/
theorem word_lanes :
    (∀ x, bf16 x = (if F32.isNaN x then x >>> 16 ||| 0x40
        else (x + (0x7FFF : UInt32) + (x >>> 16 &&& (1 : UInt32))) >>> 16) ∧
      (F32.isNaN x = false → x.toNat + 0x7FFF + (x >>> 16 &&& 1).toNat < 2 ^ 32) ∧
      bf16 x = (Bf16.ofF32 x).toUInt32 ∧ bf16 x ≤ 0xFFFF ∧
      (clampWord (bf16 x)).toUInt32 = bf16 x ∧ (bf16 x).toUInt16.toUInt32 = bf16 x) ∧
    (∀ (sections : Nat) (a b : Vector UInt32 (4 * sections)), ∀ i < 8 * sections,
      lane (packWords sections (a.map bf16) (b.map bf16)) i = packed 4 Bf16.ofF32 a b i) ∧
    ∀ v, Avx512.bf16Words v = v.map Bf16.ofF32 := by
  refine ⟨fun x => ⟨?_, biased_lt, bf16_eq x, ?_, ?_, ?_⟩, fun sections a b i hi => ?_,
    Avx512.bf16Words_eq⟩
  · split_ifs with hnan
    · exact bf16_of_isNaN hnan
    · exact bf16_of_not_isNaN (Bool.eq_false_iff.mpr hnan)
  · rw [bf16_eq]
    exact toUInt32_le_of_word _
  · rw [clampWord_bf16, bf16_eq]
  · rw [toUInt16_bf16, bf16_eq]
  · rw [lane_packWords sections _ _ hi]
    exact packed_map clampWord_bf16 hi a b

/-- The greatest negative number comes near the end of the words, and a pack of its lane with
that of a signalling NaN keeps the one and makes the other quiet. -/
theorem word_lanes_cases :
    (F32.isNaN 0xFF7FFFFF = false ∧
      (0xFF7FFFFF : UInt32).toNat + 0x7FFF + ((0xFF7FFFFF : UInt32) >>> 16 &&& 1).toNat < 2 ^ 32) ∧
    (5 < 8 * 1 ∧
      lane (packWords 1 (#v[0, 0, 0, 0xFF7FFFFF].map bf16) (#v[0, 0x7F800001, 0, 0].map bf16)) 5
        = 0x7FC0) := by
  obtain ⟨hlane, hpack, -⟩ := word_lanes
  refine ⟨⟨by decide, (hlane 0xFF7FFFFF).2.1 (by decide)⟩, by decide, ?_⟩
  rw [hpack 1 _ _ 5 (by decide)]
  decide +kernel

/-! ### Bytes -/

/-- The formula for an overflow rule. -/
def byteFormula : Overflow → UInt32 → UInt32
  | .saturating => saturated
  | .narrowing => wrapped

theorem byteFormula_eq (overflow : Overflow) (x : UInt32) :
    byteFormula overflow x = (Byte.ofF32 overflow x).toUInt32 := by
  cases overflow with
  | saturating => exact saturated_eq x
  | narrowing => exact wrapped_eq x

/-- **The byte formulas are the scalar conversions**, though one clamps before it rounds and the
other never asks whether the integer fits.  The lane is a byte already, so neither of the two
packs changes it, and packed registers hold the scalar results of their lanes in order.  The
512-bit kernels convert without rounding first and cut out the low byte. -/
theorem byte_lanes :
    (∀ overflow x, byteFormula overflow x = (Byte.ofF32 overflow x).toUInt32 ∧
      byteFormula overflow x ≤ 0xFF ∧
      (clampWord (byteFormula overflow x)).toUInt32 = byteFormula overflow x ∧
      clampByte (clampWord (byteFormula overflow x)) = Byte.ofF32 overflow x) ∧
    (∀ overflow (a b : Vector UInt32 4),
      lower (n := 8) (Sse41.packToBytes (a.map (byteFormula overflow))
        (b.map (byteFormula overflow)))
        = join (a.map (Byte.ofF32 overflow)) (b.map (Byte.ofF32 overflow))) ∧
    (∀ overflow (a b : Vector UInt32 8),
      Avx2.packToBytes (a.map (byteFormula overflow)) (b.map (byteFormula overflow))
        = join (a.map (Byte.ofF32 overflow)) (b.map (Byte.ofF32 overflow))) ∧
    ∀ x, F32.toInt32 (clamped x) ≤ 0xFF ∧
      (F32.toInt32 (clamped x)).toUInt8 = Byte.ofF32 .saturating x ∧
      (F32.toInt32 x).toUInt8 = Byte.ofF32 .narrowing x := by
  refine ⟨fun overflow x => ?_, fun overflow a b => ?_, fun overflow a b => ?_, fun x => ?_⟩
  · rw [byteFormula_eq]
    exact ⟨rfl, toUInt32_le_of_byte _, by rw [clampWord_of_byte, UInt8.toUInt32_toUInt16],
      clampByte_clampWord _⟩
  · rw [map_formula (byteFormula_eq overflow), map_formula (byteFormula_eq overflow),
      Sse41.packToBytes_map]
  · rw [map_formula (byteFormula_eq overflow), map_formula (byteFormula_eq overflow)]
    exact Avx2.packToBytes_map _ _
  · refine ⟨?_, toUInt8_toInt32_clamped x, toUInt8_toInt32 x⟩
    rw [← F32.toInt32_roundEven, ← saturated, saturated_eq]
    exact toUInt32_le_of_byte _

end Lanewise.Lanes

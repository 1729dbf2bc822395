/-
Lanewise/Proofs/Collisions.lean

Which buffers have the same checksum.

An update is additive (`Crc.update_xor`), but a checksum starts from a value that is not zero
and ends with a complement.  Both are the same for every string of bytes.  So they are gone
from the exclusive or of two checksums, and that is what the difference of the strings gives
if it is taken in from zero (`crc32_xor_crc32`).  In the exclusive or of three they are left
once:

    crc32 (a xor b xor c) = crc32 a ^^^ crc32 b ^^^ crc32 c

(`crc32_affine`).  In memory, the difference of two buffers is the difference of their bytes,
whatever their elements are (`Element.bytesOf_difference`).  Two buffers of one length
therefore collide exactly if their difference, taken in from zero, gives zero
(`checksum_eq_iff_difference`); what they hold apart from that does not matter.
-/
import Lanewise.Proofs.Checksum

namespace Lanewise

/-! ### Strings of bytes -/

section

variable {as bs : List UInt8}

/-- A second string changes a checksum by what it gives if it is taken in from zero. -/
theorem crc32_zipWith_xor (h : as.length = bs.length) :
    crc32 (List.zipWith (· ^^^ ·) as bs) = crc32 as ^^^ bs.foldl Crc.update 0 := by
  have hfold := Crc.foldl_update_xor h 0xFFFFFFFF 0
  rw [UInt32.xor_zero] at hfold
  rw [crc32, hfold, crc32, UInt32.not_xor]

/-- In the exclusive or of two checksums, neither the start nor the complement is left. -/
theorem crc32_xor_crc32 (h : as.length = bs.length) :
    crc32 as ^^^ crc32 bs = (List.zipWith (· ^^^ ·) as bs).foldl Crc.update 0 := by
  have hfold := Crc.foldl_update_xor h 0xFFFFFFFF 0xFFFFFFFF
  rw [UInt32.xor_self] at hfold
  rw [hfold, crc32, crc32, UInt32.not_xor, UInt32.xor_not, UInt32.not_not]

end

/-! ### Buffers of elements -/

namespace Element

/-- Exclusive or of two patterns, bit by bit. -/
def xor : (e : Element) → e.Bits → e.Bits → e.Bits
  | .f32 => UInt32.xor
  | .u16 => UInt16.xor
  | .u8 => UInt8.xor

/-- The bitwise difference of two buffers, element by element. -/
def difference (e : Element) (a b : Array e.Bits) : Array e.Bits := Array.zipWith e.xor a b

theorem bytes_xor (e : Element) (x y : e.Bits) :
    e.bytes (e.xor x y) = List.zipWith (· ^^^ ·) (e.bytes x) (e.bytes y) := by
  cases e with
  | f32 =>
    show bytes .f32 ((x : UInt32) ^^^ (y : UInt32)) = _
    simp only [bytes, UInt32.toUInt8_xor, UInt32.shiftRight_xor, List.zipWith_cons_cons,
      List.zipWith_nil_left]
  | u16 =>
    show bytes .u16 ((x : UInt16) ^^^ (y : UInt16)) = _
    simp only [bytes, UInt16.toUInt8_xor, UInt16.shiftRight_xor, List.zipWith_cons_cons,
      List.zipWith_nil_left]
  | u8 => rfl

/-- All patterns have as many bytes, so bytes of one place stand in one place. -/
theorem flatMap_bytes_zipWith (e : Element) {as bs : List e.Bits} (h : as.length = bs.length) :
    (List.zipWith e.xor as bs).flatMap e.bytes
      = List.zipWith (· ^^^ ·) (as.flatMap e.bytes) (bs.flatMap e.bytes) := by
  induction as generalizing bs with
  | nil => rfl
  | cons a as ih =>
    obtain ⟨b, bs, rfl⟩ := List.exists_cons_of_length_eq_add_one h.symm
    have hwidth : (e.bytes a).length = (e.bytes b).length := by
      rw [length_bytes, length_bytes]
    rw [List.zipWith_cons_cons, List.flatMap_cons, List.flatMap_cons, List.flatMap_cons,
      List.zipWith_append hwidth, bytes_xor, ih (Nat.succ.inj h)]

theorem bytesOf_difference (e : Element) {a b : Array e.Bits} (h : a.size = b.size) :
    e.bytesOf (e.difference a b)
      = List.zipWith (· ^^^ ·) (e.bytesOf a) (e.bytesOf b) := by
  rw [bytesOf, difference, Array.toList_zipWith]
  exact e.flatMap_bytes_zipWith h

end Element

/-- Two buffers of one length collide exactly if the checksum does not see their difference. -/
theorem checksum_eq_iff_difference {e : Element} {a b : Array e.Bits} (h : a.size = b.size) :
    checksum e a = checksum e b ↔ (e.bytesOf (e.difference a b)).foldl Crc.update 0 = 0 := by
  have hlength : (e.bytesOf a).length = (e.bytesOf b).length := by
    rw [e.length_bytesOf, e.length_bytesOf, h]
  rw [e.bytesOf_difference h, ← crc32_xor_crc32 hlength, UInt32.xor_eq_zero_iff]
  rfl

/-- **The checksum is affine over exclusive or**, and whether two buffers of one length collide
depends on their difference only. -/
theorem crc32_affine :
    (∀ as bs cs : List UInt8, as.length = bs.length → bs.length = cs.length →
      crc32 (List.zipWith (· ^^^ ·) (List.zipWith (· ^^^ ·) as bs) cs)
        = crc32 as ^^^ crc32 bs ^^^ crc32 cs) ∧
    ∀ (e : Element) (a b a' b' : Array e.Bits), a.size = b.size → a'.size = b'.size →
      e.difference a b = e.difference a' b' →
      (checksum e a = checksum e b ↔ checksum e a' = checksum e b') := by
  refine ⟨fun as bs cs hab hbc => ?_, fun e a b a' b' h h' hsame => ?_⟩
  · have hlength : (List.zipWith (· ^^^ ·) as bs).length = cs.length := by
      rw [List.length_zipWith, hab, Nat.min_self, hbc]
    -- the second and the third string are taken in from zero, and so is their difference
    have hzero : crc32 bs ^^^ crc32 cs = bs.foldl Crc.update 0 ^^^ cs.foldl Crc.update 0 := by
      rw [crc32_xor_crc32 hbc, ← Crc.foldl_update_xor hbc, UInt32.xor_self]
    calc crc32 (List.zipWith (· ^^^ ·) (List.zipWith (· ^^^ ·) as bs) cs)
        = crc32 as ^^^ bs.foldl Crc.update 0 ^^^ cs.foldl Crc.update 0 := by
          rw [crc32_zipWith_xor hlength, crc32_zipWith_xor hab]
      _ = crc32 as ^^^ (crc32 bs ^^^ crc32 cs) := by rw [hzero, UInt32.xor_assoc]
      _ = crc32 as ^^^ crc32 bs ^^^ crc32 cs := (UInt32.xor_assoc _ _ _).symm
  · rw [checksum_eq_iff_difference h, checksum_eq_iff_difference h', hsame]

/-- The digits of a number, each in two halves, and a difference that one pair of buffers hides
as another does. -/
theorem crc32_affine_cases :
    (crc32 [0x31, 0x32, 0x33] = crc32 [0x30, 0x30, 0x30] ^^^ crc32 [0x01, 0x02, 0x03]
      ^^^ crc32 [0x00, 0x00, 0x00]) ∧
    (Element.difference .u16 #[0x3C7E, 0x8000] #[0x3E48, 0x8000]
        = Element.difference .u16 #[0xFFFF, 7] #[0xFDC9, 7] ∧
      (checksum .u16 #[0x3C7E, 0x8000] = checksum .u16 #[0x3E48, 0x8000]
        ↔ checksum .u16 #[0xFFFF, 7] = checksum .u16 #[0xFDC9, 7])) := by
  have hsame : Element.difference .u16 #[0x3C7E, 0x8000] #[0x3E48, 0x8000]
      = Element.difference .u16 #[0xFFFF, 7] #[0xFDC9, 7] := by decide +kernel
  exact ⟨crc32_affine.1 [0x30, 0x30, 0x30] [0x01, 0x02, 0x03] [0x00, 0x00, 0x00] rfl rfl,
    hsame, crc32_affine.2 .u16 _ _ _ _ rfl rfl hsame⟩

end Lanewise

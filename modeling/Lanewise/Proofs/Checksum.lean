/-
Lanewise/Proofs/Checksum.lean

What the checksum tells apart.

An update is additive: the exclusive or of two running values and of two bytes gives the
exclusive or of the results (`Crc.update_xor`).  It also loses nothing of the running
value (`Crc.update_injective`).  So if two buffers differ in one element only, what
stands before that element and after it does not matter:

    same checksum   iff   the difference of the elements, taken in from 0, gives 0

(`checksum_setIfInBounds_eq_iff`).  Such a difference is blind.  An update moves the
running value by one bit only, so the thirty-two bits of a float leave no more than
eleven independent bits in it, and the other twenty-one can be chosen freely.
`blindWords` has a word for each of these: the bit that is chosen, and what then has to
stand in the eleven.  The blind differences are the exclusive ors of these words
(`blind_iff`).  A difference within one byte is never blind: wherever the byte stands in a
string, the checksum shows that it is another one (`crc32_set_eq_iff`).
-/
import Mathlib.Data.FinEnum
import Mathlib.Tactic
import Lanewise.Checksum

namespace Lanewise

/-! ### Additive functions of words -/

/-- The function of an exclusive or is the exclusive or of the function's values. -/
def XorAdditive (f : UInt32 → UInt32) : Prop := ∀ a b, f (a ^^^ b) = f a ^^^ f b

/-- The exclusive or of a list of words. -/
def xorSum (words : List UInt32) : UInt32 := words.foldr (· ^^^ ·) 0

/-- Without its topmost bit, a number is below that bit. -/
theorem xor_two_pow_lt {x n : Nat} (hlo : 2 ^ n ≤ x) (hhi : x < 2 ^ (n + 1)) :
    x ^^^ 2 ^ n < 2 ^ n := by
  refine Nat.lt_pow_two_of_testBit _ fun i hi => ?_
  rw [Nat.testBit_xor, Nat.testBit_two_pow]
  rcases Nat.eq_or_lt_of_le hi with rfl | hlt
  · rw [Nat.testBit_of_two_pow_le_and_two_pow_add_one_gt hlo hhi]
    simp
  · have hx : x < 2 ^ i := Nat.lt_of_lt_of_le hhi (Nat.pow_le_pow_right (by decide) hlt)
    rw [Nat.testBit_lt_two_pow hx]
    simp [Nat.ne_of_lt hlt]

namespace XorAdditive

variable {f g : UInt32 → UInt32}

theorem map_zero (hf : XorAdditive f) : f 0 = 0 := by
  have h := hf 0 0
  rwa [UInt32.xor_self, UInt32.xor_self] at h

theorem map_xorSum_eq_zero (hf : XorAdditive f) {words : List UInt32}
    (h : ∀ w ∈ words, f w = 0) : f (xorSum words) = 0 := by
  induction words with
  | nil => exact hf.map_zero
  | cons w words ih =>
    show f (w ^^^ xorSum words) = 0
    rw [hf, h w List.mem_cons_self, ih fun v hv => h v (List.mem_cons_of_mem w hv)]
    exact UInt32.xor_zero

theorem comp (hf : XorAdditive f) (hg : XorAdditive g) : XorAdditive fun x => f (g x) := by
  intro a b
  show f (g (a ^^^ b)) = _
  rw [hg, hf]

theorem iterate (hf : XorAdditive f) (n : Nat) : XorAdditive (Nat.repeat f n) := by
  induction n with
  | zero => exact fun _ _ => rfl
  | succ n ih => exact hf.comp ih

theorem xor (hf : XorAdditive f) (hg : XorAdditive g) : XorAdditive fun x => f x ^^^ g x := by
  intro a b
  show f (a ^^^ b) ^^^ g (a ^^^ b) = f a ^^^ g a ^^^ (f b ^^^ g b)
  rw [hf, hg]
  ac_rfl

theorem shiftRight (k : UInt32) : XorAdditive (· >>> k) := fun _ _ => UInt32.shiftRight_xor

/-- A word that comes in if a bit of the argument is set. -/
theorem ite_testBit (k : Nat) (w : UInt32) :
    XorAdditive fun x => if x.toNat.testBit k then w else 0 := by
  intro a b
  simp only [UInt32.toNat_xor, Nat.testBit_xor]
  cases a.toNat.testBit k <;> cases b.toNat.testBit k <;> simp

/-- Words that come in each if its own bit of the argument is set. -/
theorem xorSum_filter {α : Type} (bit : α → Nat) (word : α → UInt32) (rows : List α) :
    XorAdditive fun x => xorSum ((rows.filter fun r => x.toNat.testBit (bit r)).map word) := by
  induction rows with
  | nil => exact fun _ _ => UInt32.xor_self.symm
  | cons r rows ih =>
    have hcons : (fun x : UInt32 =>
          xorSum (((r :: rows).filter fun r => x.toNat.testBit (bit r)).map word))
        = fun x => (if x.toNat.testBit (bit r) then word r else 0)
            ^^^ xorSum ((rows.filter fun r => x.toNat.testBit (bit r)).map word) := by
      funext x
      rw [List.filter_cons]
      cases x.toNat.testBit (bit r)
      · exact UInt32.zero_xor.symm
      · rfl
    rw [hcons]
    exact (ite_testBit (bit r) (word r)).xor ih

/-- Additive functions that agree on single bits agree. -/
theorem ext (hf : XorAdditive f) (hg : XorAdditive g)
    (h : ∀ k < 32, f (UInt32.ofNat (2 ^ k)) = g (UInt32.ofNat (2 ^ k))) (x : UInt32) :
    f x = g x := by
  -- the bits are taken away from the topmost one down
  have hbelow : ∀ n ≤ 32, ∀ x : UInt32, x.toNat < 2 ^ n → f x = g x := by
    intro n
    induction n with
    | zero =>
      intro _ x hx
      have hzero : x = 0 := UInt32.toNat_inj.mp (by simpa using hx)
      rw [hzero, hf.map_zero, hg.map_zero]
    | succ n ih =>
      intro hn x hx
      rcases Nat.lt_or_ge x.toNat (2 ^ n) with hlt | hge
      · exact ih (by omega) x hlt
      · have htop : (UInt32.ofNat (2 ^ n)).toNat = 2 ^ n :=
          UInt32.toNat_ofNat_of_lt' (Nat.pow_lt_pow_right (n := 32) Nat.one_lt_two (by omega))
        have hrest : f (x ^^^ UInt32.ofNat (2 ^ n)) = g (x ^^^ UInt32.ofNat (2 ^ n)) := by
          refine ih (by omega) _ ?_
          rw [UInt32.toNat_xor, htop]
          exact xor_two_pow_lt hge hx
        rw [hf, hg, h n (by omega)] at hrest
        exact (UInt32.xor_left_inj _).mp hrest
  exact hbelow 32 le_rfl x (UInt32.toNat_lt x)

end XorAdditive

/-! ### Updates -/

namespace Crc

theorem reduceBit_xorAdditive : XorAdditive reduceBit := by
  have hlow : XorAdditive fun c => if c &&& 1 = 0 then 0 else polynomial := by
    intro a b
    have hbit : ∀ x : UInt32, x &&& 1 = 0 ↔ x.toNat % 2 = 0 := by
      intro x
      rw [← UInt32.toNat_inj, UInt32.toNat_and]
      exact Eq.congr_left (Nat.and_one_is_mod x.toNat)
    have hxor : (a ^^^ b).toNat % 2 = a.toNat % 2 ^^^ b.toNat % 2 := by
      rw [UInt32.toNat_xor]
      exact Nat.xor_mod_two_pow (n := 1)
    simp only [hbit, hxor]
    rcases Nat.mod_two_eq_zero_or_one a.toNat with ha | ha <;>
      rcases Nat.mod_two_eq_zero_or_one b.toNat with hb | hb <;> simp [ha, hb]
  exact (XorAdditive.shiftRight 1).xor hlow

theorem remainder_xor (a b : UInt8) : remainder (a ^^^ b) = remainder a ^^^ remainder b := by
  rw [remainder, UInt8.toUInt32_xor]
  exact reduceBit_xorAdditive.iterate 8 _ _

theorem table_get (b : UInt8) : table.get b.toFin = remainder b := by
  have hb : b.toNat < 256 := b.toNat_lt
  show table[b.toNat] = remainder b
  rw [table, Vector.getElem_ofFn]
  exact congrArg remainder UInt8.ofNat_toNat

theorem update_eq (crc : UInt32) (byte : UInt8) :
    update crc byte = (crc >>> 1) ^^^ remainder (crc.toUInt8 ^^^ byte) := by
  rw [update, table_get, UInt32.toUInt8_xor, UInt8.toUInt8_toUInt32]

/-- An update is additive in the running value and the byte together. -/
theorem update_xor (s t : UInt32) (a b : UInt8) :
    update (s ^^^ t) (a ^^^ b) = update s a ^^^ update t b := by
  simp only [update_eq, UInt32.toUInt8_xor, UInt32.shiftRight_xor, remainder_xor]
  ac_rfl

theorem foldl_update_xor {as bs : List UInt8} (h : as.length = bs.length) (s t : UInt32) :
    (List.zipWith (· ^^^ ·) as bs).foldl update (s ^^^ t)
      = as.foldl update s ^^^ bs.foldl update t := by
  induction as generalizing bs s t with
  | nil =>
    obtain rfl := List.length_eq_zero_iff.mp h.symm
    rfl
  | cons a as ih =>
    obtain ⟨b, bs, rfl⟩ := List.exists_cons_of_length_eq_add_one h.symm
    rw [List.zipWith_cons_cons, List.foldl_cons, update_xor]
    exact ih (Nat.succ.inj h) _ _

/-- Only from zero does a zero byte lead to zero. -/
theorem eq_zero_of_update_zero {s : UInt32} (h : update s 0 = 0) : s = 0 := by
  -- the value without its low bit is the remainder of its low byte, so the byte fixes the value
  have hlow : ∀ n < 256, (remainder (UInt8.ofNat n)).toNat < 2 ^ 31 →
      (2 * (remainder (UInt8.ofNat n)).toNat + n % 2) % 256 = n → n = 0 := by
    decide +kernel
  have hshift : s >>> 1 = remainder s.toUInt8 := by
    rw [update_eq, UInt8.xor_zero] at h
    exact UInt32.xor_eq_zero_iff.mp h
  have hhalf : s.toNat / 2 = (remainder s.toUInt8).toNat := by
    rw [← hshift, UInt32.toNat_shiftRight]
    exact (Nat.shiftRight_eq_div_pow s.toNat 1).symm
  have hbyte : s.toUInt8 = UInt8.ofNat (s.toNat % 256) := by
    rw [← UInt8.toNat_inj, UInt32.toNat_toUInt8, UInt8.toNat_ofNat']
    omega
  have hzero : s.toNat % 256 = 0 := by
    have hs := UInt32.toNat_lt s
    refine hlow _ (Nat.mod_lt _ (by decide)) ?_ ?_
    · rw [← hbyte, ← hhalf]
      omega
    · rw [← hbyte, ← hhalf]
      omega
  rw [hzero] at hbyte
  rw [hbyte] at hhalf
  have hnone : (remainder (UInt8.ofNat 0)).toNat = 0 := by decide
  exact UInt32.toNat_inj.mp (by rw [hnone] at hhalf; simp; omega)

/-- An update loses nothing of the running value. -/
theorem update_injective (byte : UInt8) : Function.Injective (update · byte) := by
  intro s t h
  have hzero : update (s ^^^ t) (byte ^^^ byte) = 0 := by
    rw [update_xor]
    exact UInt32.xor_eq_zero_iff.mpr h
  rw [UInt8.xor_self] at hzero
  exact UInt32.xor_eq_zero_iff.mp (eq_zero_of_update_zero hzero)

theorem foldl_update_injective (bytes : List UInt8) :
    Function.Injective (bytes.foldl update ·) := by
  induction bytes with
  | nil => exact fun _ _ h => h
  | cons byte bytes ih => exact fun s t h => update_injective byte (ih h)

end Crc

/-! ### One element of a buffer -/

namespace Element

/-- A pattern as the low bits of a word. -/
def word (e : Element) (x : e.Bits) : UInt32 := UInt32.ofNat (e.toNat x)

variable {e : Element}

theorem toNat_lt (x : e.Bits) : e.toNat x < 2 ^ (8 * e.width) := by
  cases e
  · exact UInt32.toNat_lt x
  · exact UInt16.toNat_lt x
  · exact UInt8.toNat_lt x

theorem toNat_word (x : e.Bits) : (e.word x).toNat = e.toNat x := by
  have hwidth : 8 * e.width ≤ 32 := by cases e <;> decide
  exact UInt32.toNat_ofNat_of_lt' ((toNat_lt x).trans_le (Nat.pow_le_pow_right Nat.two_pos hwidth))

theorem word_injective : Function.Injective e.word := by
  intro x y h
  have hnat : e.toNat x = e.toNat y := by rw [← toNat_word, ← toNat_word, h]
  cases e
  · exact UInt32.toNat_inj.mp hnat
  · exact UInt16.toNat_inj.mp hnat
  · exact UInt8.toNat_inj.mp hnat

/-- As a word, a pattern has zero bytes after its own. -/
theorem bytes_word (x : e.Bits) :
    Element.f32.bytes (e.word x) = e.bytes x ++ List.replicate (4 - e.width) 0 := by
  have hbyte : ∀ k : UInt32, k.toNat < 32 →
      (UInt32.toUInt8 (e.word x >>> k)).toNat = e.toNat x / 2 ^ k.toNat % 2 ^ 8 := by
    intro k hk
    rw [UInt32.toNat_toUInt8, UInt32.toNat_shiftRight, toNat_word, Nat.mod_eq_of_lt hk,
      Nat.shiftRight_eq_div_pow]
  have hlow : (UInt32.toUInt8 (e.word x)).toNat = e.toNat x % 2 ^ 8 := by
    rw [UInt32.toNat_toUInt8, toNat_word]
  have hnone : ∀ k : UInt32, 8 * e.width ≤ k.toNat → k.toNat < 32 →
      UInt32.toUInt8 (e.word x >>> k) = 0 := by
    intro k hwidth hk
    have hlt := (toNat_lt x).trans_le (Nat.pow_le_pow_right Nat.two_pos hwidth)
    rw [← UInt8.toNat_inj, hbyte k hk, Nat.div_eq_of_lt hlt]
    rfl
  cases e with
  | f32 =>
    have hsame : Element.f32.word x = x := UInt32.ofNat_toNat
    rw [hsame]
    rfl
  | u16 =>
    have hfirst : UInt32.toUInt8 (Element.u16.word x) = UInt16.toUInt8 x := by
      rw [← UInt8.toNat_inj, hlow, UInt16.toNat_toUInt8]
      rfl
    have hsecond : UInt32.toUInt8 (Element.u16.word x >>> 8) = UInt16.toUInt8 (x >>> 8) := by
      rw [← UInt8.toNat_inj, hbyte 8 (by decide), UInt16.toNat_toUInt8, UInt16.toNat_shiftRight,
        Nat.shiftRight_eq_div_pow]
      rfl
    rw [bytes, hfirst, hsecond, hnone 16 (by decide) (by decide), hnone 24 (by decide) (by decide)]
    rfl
  | u8 =>
    have hfirst : UInt32.toUInt8 (Element.u8.word x) = x := by
      rw [← UInt8.toNat_inj, hlow]
      exact Nat.mod_eq_of_lt (UInt8.toNat_lt x)
    rw [bytes, hfirst, hnone 8 (by decide) (by decide), hnone 16 (by decide) (by decide),
      hnone 24 (by decide) (by decide)]
    rfl

/-- The running value after the bytes of a word. -/
def absorbWord (s w : UInt32) : UInt32 := (Element.f32.bytes w).foldl Crc.update s

theorem absorbWord_xor (s t v w : UInt32) :
    absorbWord (s ^^^ t) (v ^^^ w) = absorbWord s v ^^^ absorbWord t w := by
  have hbyte : ∀ k : UInt32,
      ((v ^^^ w) >>> k).toUInt8 = (v >>> k).toUInt8 ^^^ (w >>> k).toUInt8 := by
    intro k
    rw [UInt32.shiftRight_xor, UInt32.toUInt8_xor]
  have hbytes : Element.f32.bytes (v ^^^ w)
      = List.zipWith (· ^^^ ·) (Element.f32.bytes v) (Element.f32.bytes w) := by
    simp only [bytes, hbyte, UInt32.toUInt8_xor, List.zipWith_cons_cons, List.zipWith_nil_left]
  have hlength : (Element.f32.bytes v).length = (Element.f32.bytes w).length := rfl
  simp only [absorbWord, hbytes]
  exact Crc.foldl_update_xor hlength s t

theorem foldl_bytes_eq_iff (s : UInt32) (x y : e.Bits) :
    (e.bytes y).foldl Crc.update s = (e.bytes x).foldl Crc.update s
      ↔ absorbWord 0 (e.word x ^^^ e.word y) = 0 := by
  have hword : ∀ z : e.Bits, absorbWord s (e.word z)
      = (List.replicate (4 - e.width) 0).foldl Crc.update ((e.bytes z).foldl Crc.update s) := by
    intro z
    rw [absorbWord, bytes_word, List.foldl_append]
  rw [← (Crc.foldl_update_injective (List.replicate (4 - e.width) 0)).eq_iff, ← hword, ← hword,
    ← UInt32.xor_eq_zero_iff, ← absorbWord_xor, UInt32.xor_self, UInt32.xor_comm]

end Element

/-- Strings that differ in the middle only have the same checksum exactly if the middle parts
lead from the value before them to the same value. -/
theorem crc32_append_eq_iff (before after : List UInt8) {as bs : List UInt8} :
    crc32 (before ++ as ++ after) = crc32 (before ++ bs ++ after)
      ↔ as.foldl Crc.update (before.foldl Crc.update 0xFFFFFFFF)
        = bs.foldl Crc.update (before.foldl Crc.update 0xFFFFFFFF) := by
  simp only [crc32, List.foldl_append, UInt32.not_inj]
  exact (Crc.foldl_update_injective after).eq_iff

/-! ### One byte of a string -/

namespace Crc

/-- No two entries of the table are the same. -/
theorem remainder_injective : Function.Injective remainder := by
  have hzero : ∀ n < 256, remainder (UInt8.ofNat n) = 0 → n = 0 := by decide +kernel
  intro a b h
  have hsame : remainder (a ^^^ b) = 0 := by
    rw [remainder_xor]
    exact UInt32.xor_eq_zero_iff.mpr h
  have hnone := hzero (a ^^^ b).toNat (UInt8.toNat_lt _) (by rwa [UInt8.ofNat_toNat])
  exact UInt8.xor_eq_zero_iff.mp (UInt8.toNat_inj.mp hnone)

/-- An update loses nothing of the byte either. -/
theorem update_injective_right (crc : UInt32) : Function.Injective (update crc) := by
  intro a b h
  rw [update_eq, update_eq, UInt32.xor_right_inj] at h
  exact (UInt8.xor_right_inj _).mp (remainder_injective h)

/-- There are no more running values after an update than before, so it reaches all of them. -/
theorem update_bijective (byte : UInt8) : Function.Bijective (update · byte) :=
  Finite.injective_iff_bijective.mp (update_injective byte)

end Crc

/-- **Every corruption of one byte is detected.**  A string with one byte replaced has the same
checksum only if the byte is the one that was there.  An update is a permutation of the running
values, so what stands after the byte keeps apart what differs before it, and different bytes
lead from one value to different ones. -/
theorem crc32_set_eq_iff :
    (∀ (bytes : List UInt8) (i : Nat) (hi : i < bytes.length) (byte : UInt8),
      crc32 (bytes.set i byte) = crc32 bytes ↔ byte = bytes[i]) ∧
    (∀ byte, Function.Bijective (Crc.update · byte)) ∧
    (∀ suffix : List UInt8, Function.Injective fun crc => ~~~(suffix.foldl Crc.update crc)) ∧
    ∀ crc, Function.Injective (Crc.update crc) := by
  refine ⟨fun bytes i hi byte => ?_, Crc.update_bijective, fun suffix crc crc' h => ?_,
    Crc.update_injective_right⟩
  · have hset : bytes.set i byte = bytes.take i ++ [byte] ++ bytes.drop (i + 1) := by
      rw [List.append_assoc, List.singleton_append, List.set_eq_take_append_cons_drop, if_pos hi]
    have hself : bytes = bytes.take i ++ [bytes[i]] ++ bytes.drop (i + 1) := by
      rw [List.append_assoc, List.singleton_append, List.getElem_cons_drop, List.take_append_drop]
    rw [hset]
    conv_lhs => rhs; rw [hself]
    rw [crc32_append_eq_iff]
    exact (Crc.update_injective_right _).eq_iff
  · exact Crc.foldl_update_injective suffix (UInt32.not_inj.mp h)

/-- One bit of a kilobyte of zeros. -/
theorem crc32_set_zeros : 517 < (List.replicate 1024 (0 : UInt8)).length ∧
    crc32 ((List.replicate 1024 0).set 517 0x10) ≠ crc32 (List.replicate 1024 0) := by
  have hplace : 517 < (List.replicate 1024 (0 : UInt8)).length := by
    rw [List.length_replicate]
    decide
  refine ⟨hplace, (crc32_set_eq_iff.1 (List.replicate 1024 0) 517 hplace 0x10).not.mpr ?_⟩
  rw [List.getElem_replicate]
  decide

/-- Replacing one element keeps the checksum exactly if the difference, taken in from zero,
gives zero. -/
theorem checksum_setIfInBounds_eq_iff {e : Element} {data : Array e.Bits} {i : Nat} {x : e.Bits}
    (hx : data[i]? = some x) (y : e.Bits) :
    checksum e (data.setIfInBounds i y) = checksum e data
      ↔ Element.absorbWord 0 (e.word x ^^^ e.word y) = 0 := by
  obtain ⟨hi, hget⟩ := Array.getElem?_eq_some_iff.mp hx
  have hnew : ∀ z, (data.setIfInBounds i z).toList
      = data.toList.take i ++ z :: data.toList.drop (i + 1) := by
    intro z
    rw [Array.toList_setIfInBounds, List.set_eq_take_append_cons_drop, if_pos (by simpa using hi)]
  have hold : data.setIfInBounds i x = data := by
    rw [Array.setIfInBounds, dif_pos hi, ← hget, Array.set_getElem_self]
  have hbytes : ∀ z, e.bytesOf (data.setIfInBounds i z)
      = (data.toList.take i).flatMap e.bytes ++ e.bytes z
        ++ (data.toList.drop (i + 1)).flatMap e.bytes := by
    intro z
    rw [Element.bytesOf, hnew, List.flatMap_append, List.flatMap_cons, List.append_assoc]
  have hsame := hbytes x
  rw [hold] at hsame
  rw [checksum, checksum, hbytes, hsame, crc32_append_eq_iff, Element.foldl_bytes_eq_iff]

/-! ### Blind differences -/

/-- The differences of elements that the checksum misses are the exclusive ors of these words.
The topmost bit of each can be chosen freely; the bits below it make up for it. -/
def blindWords : Element → List UInt32
  | .u8 => []
  | .u16 => [0x0236, 0x0470, 0x08E0, 0x11DC, 0x2192, 0x4112, 0x800E]
  | .f32 => [0x0236, 0x0470, 0x08E0, 0x11DC, 0x2192, 0x4112, 0x800E,
      0x00020008, 0x0004015C, 0x0008008E, 0x00110050, 0x002101E4, 0x004101EA, 0x008000A6,
      0x020000E0, 0x0401005E, 0x080000A8, 0x110000CE, 0x210100FE, 0x41010058, 0x800001DA]

/-- The checksum misses the difference: it is the exclusive or of some of the blind words. -/
def Blind (e : Element) (difference : UInt32) : Prop :=
  ∃ chosen : List UInt32, chosen.Sublist (blindWords e) ∧ difference = xorSum chosen

/-- Which of the bits 0 to 8, 16 and 24 of a difference each low bit of its remainder stands
for, if the other bits of the difference are clear. -/
def recovery : List (Nat × UInt32) :=
  [(0, 0x010101E1), (1, 0x000000E1), (2, 0x0100003D), (3, 0x01010098), (4, 0x01000088),
    (5, 0x010000C1), (6, 0x01000032), (7, 0x01000054), (8, 0x01010084), (9, 0x0001019F),
    (10, 0x010101AF)]

/-- The blind words whose topmost bits are set in a word. -/
def freePart (x : UInt32) : List UInt32 :=
  (blindWords .f32).filter fun w => x.toNat.testBit w.toNat.log2

/-- What can be told of a word from its remainder. -/
def recovered (s : UInt32) : UInt32 :=
  xorSum ((recovery.filter fun row => s.toNat.testBit row.1).map Prod.snd)

theorem absorbWord_xorAdditive : XorAdditive (Element.absorbWord 0) := fun v w =>
  Element.absorbWord_xor 0 0 v w

/-- A word is the exclusive or of some blind words and of what its remainder tells. -/
theorem xorSum_freePart_xor_recovered (x : UInt32) :
    xorSum (freePart x) ^^^ recovered (Element.absorbWord 0 x) = x := by
  have hfree : XorAdditive fun x => xorSum (freePart x) := by
    have hwords := XorAdditive.xorSum_filter (fun w : UInt32 => w.toNat.log2) id (blindWords .f32)
    simpa only [freePart, List.map_id] using hwords
  have hrecovered : XorAdditive fun x => recovered (Element.absorbWord 0 x) :=
    (XorAdditive.xorSum_filter Prod.fst Prod.snd recovery).comp absorbWord_xorAdditive
  have hid : XorAdditive fun x => x := fun _ _ => rfl
  refine (hfree.xor hrecovered).ext hid ?_ x
  decide +kernel

theorem absorbWord_blindWords : ∀ w ∈ blindWords .f32, Element.absorbWord 0 w = 0 := by
  -- as a run over the list: the proposition itself would be decided over all words there are
  have hall : ((blindWords .f32).all fun w => Element.absorbWord 0 w == 0) = true := by
    decide +kernel
  exact fun w hw => eq_of_beq (List.all_eq_true.mp hall w hw)

/-- The differences within an element of fewer bytes are blind by fewer words. -/
theorem freePart_sublist {e : Element} {x : UInt32} (hx : x.toNat < 2 ^ (8 * e.width)) :
    (freePart x).Sublist (blindWords e) := by
  obtain ⟨rest, hrest, htop⟩ : ∃ rest, blindWords .f32 = blindWords e ++ rest ∧
      (rest.all fun w => 8 * e.width ≤ w.toNat.log2) = true := by
    cases e
    · exact ⟨[], rfl, rfl⟩
    · exact ⟨_, rfl, by decide⟩
    · exact ⟨_, rfl, by decide⟩
  have hclear : rest.filter (fun w => x.toNat.testBit w.toNat.log2) = [] := by
    refine List.filter_eq_nil_iff.mpr fun w hw => ?_
    have hwidth : 8 * e.width ≤ w.toNat.log2 := of_decide_eq_true (List.all_eq_true.mp htop w hw)
    have hlt := hx.trans_le (Nat.pow_le_pow_right Nat.two_pos hwidth)
    rw [Nat.testBit_lt_two_pow hlt]
    decide
  rw [freePart, hrest, List.filter_append, hclear, List.append_nil]
  exact List.filter_sublist

/-- **The blind differences** are those that give zero if they are taken in from zero. -/
theorem blind_iff {e : Element} {difference : UInt32} (h : difference.toNat < 2 ^ (8 * e.width)) :
    Blind e difference ↔ Element.absorbWord 0 difference = 0 := by
  constructor
  · rintro ⟨chosen, hchosen, rfl⟩
    have hsub : (blindWords e).Sublist (blindWords .f32) := by cases e <;> decide
    refine absorbWord_xorAdditive.map_xorSum_eq_zero fun w hw => ?_
    exact absorbWord_blindWords w ((hchosen.trans hsub).subset hw)
  · intro hzero
    refine ⟨freePart difference, freePart_sublist h, ?_⟩
    have hall := xorSum_freePart_xor_recovered difference
    have hnone : recovered 0 = 0 := rfl
    rw [hzero, hnone, UInt32.xor_zero] at hall
    exact hall.symm

end Lanewise

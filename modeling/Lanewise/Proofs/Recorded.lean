/-
Lanewise/Proofs/Recorded.lean

The recorded checksums are those of the scalar conversions:

    checksum of the reference data, converted by d.scalar   =   expectedChecksum d

(`checksum_scalar`).  This is a computation over 4608 elements and 18432 bytes for each
direction.  It is done on natural numbers, in four parts that are tied to the
definitions on words one by one: the update of a running value with the table packed
into one number (`Crc.toNat_update`), the bytes of an element (`toNat_foldl_bytes`), the
reference data (`toNat_referenceFloat`) and their conversions (`toNat_scalar`).  What is
left is `computed_eq`, a loop whose running value is evaluated after every element.
-/
import Lanewise.Proofs.Checksum
import Lanewise.Proofs.Narrowing
import Lanewise.Proofs.Validation

namespace Lanewise

/-! ### Running values as numbers -/

namespace Crc

/-- The remainder of a byte. -/
def entry (byte : Nat) : Nat := Nat.repeat (fun c => (c >>> 1) ^^^ (c % 2 * 0xEDB88320)) 8 byte

/-- The table in one number, thirty-two bits for an entry. -/
def packed : Nat := (List.range 256).foldr (fun byte rest => (rest <<< 32) + entry byte) 0

/-- Takes the low byte of a number into a running value. -/
def step (s byte : Nat) : Nat :=
  (s >>> 1) ^^^ ((packed >>> (32 * ((s ^^^ byte) % 256))) % 0x100000000)

/-- Takes the low bytes of a number into a running value, lowest first. -/
def steps : Nat → Nat → Nat → Nat
  | 0, _, s => s
  | n + 1, w, s => steps n (w >>> 8) (step s w)

theorem packed_shiftRight : ∀ byte < 256,
    (packed >>> (32 * byte)) % 0x100000000 = entry byte := by
  decide +kernel

theorem toNat_reduceBit (c : UInt32) :
    (reduceBit c).toNat = (c.toNat >>> 1) ^^^ (c.toNat % 2 * 0xEDB88320) := by
  have hbit := toNat_and_one c
  have hzero : c &&& 1 = 0 ↔ c.toNat % 2 = 0 := by
    rw [← UInt32.toNat_inj, hbit]
    rfl
  rw [reduceBit, UInt32.toNat_xor, UInt32.toNat_shiftRight]
  simp only [hzero]
  rcases Nat.mod_two_eq_zero_or_one c.toNat with h | h
  · rw [h, if_pos rfl]
    rfl
  · rw [h, if_neg Nat.one_ne_zero]
    rfl

theorem toNat_remainder (byte : UInt8) : (remainder byte).toNat = entry byte.toNat := by
  have hrepeat : ∀ n (c : UInt32), (Nat.repeat reduceBit n c).toNat
      = Nat.repeat (fun c => (c >>> 1) ^^^ (c % 2 * 0xEDB88320)) n c.toNat := by
    intro n c
    induction n with
    | zero => rfl
    | succ n ih =>
      rw [Nat.repeat, toNat_reduceBit, ih]
      rfl
  rw [remainder, hrepeat, entry, UInt8.toNat_toUInt32]

theorem step_mod (s w : Nat) : step s (w % 256) = step s w := by
  have hlow : (s ^^^ w % 256) % 256 = (s ^^^ w) % 256 := by
    have hxor : ∀ v, (s ^^^ v) % 2 ^ 8 = (s % 2 ^ 8) ^^^ (v % 2 ^ 8) := fun v => Nat.xor_mod_two_pow
    rw [show 256 = 2 ^ 8 from rfl, hxor, hxor, Nat.mod_mod]
  rw [step, hlow, step]

/-- **An update**, on numbers. -/
theorem toNat_update (s : UInt32) (byte : UInt8) :
    (update s byte).toNat = step s.toNat byte.toNat := by
  have hbyte : (s.toUInt8 ^^^ byte).toNat = (s.toNat ^^^ byte.toNat) % 256 := by
    have hlow := (Nat.xor_mod_two_pow (a := s.toNat) (b := byte.toNat) (n := 8)).symm
    rw [UInt8.toNat_xor, UInt32.toNat_toUInt8]
    rwa [Nat.mod_eq_of_lt byte.toNat_lt] at hlow
  rw [update_eq, UInt32.toNat_xor, UInt32.toNat_shiftRight, toNat_remainder, hbyte, step,
    packed_shiftRight _ (Nat.mod_lt _ (by decide))]
  rfl

end Crc

/-- The bytes of an element, on numbers. -/
theorem toNat_foldl_bytes (e : Element) (x : e.Bits) (s : UInt32) :
    ((e.bytes x).foldl Crc.update s).toNat = Crc.steps e.width (e.toNat x) s.toNat := by
  have hstep : ∀ (byte : UInt8) (s : UInt32) (w : Nat), byte.toNat = w % 256 →
      (Crc.update s byte).toNat = Crc.step s.toNat w := by
    intro byte s w h
    rw [Crc.toNat_update, h, Crc.step_mod]
  cases e with
  | f32 =>
    have hbyte : ∀ k : UInt32, k.toNat < 32 →
        (UInt32.toUInt8 (x >>> k)).toNat = (UInt32.toNat x >>> k.toNat) % 256 := by
      intro k hk
      rw [UInt32.toNat_toUInt8, UInt32.toNat_shiftRight, Nat.mod_eq_of_lt hk]
    show (Crc.update (Crc.update (Crc.update (Crc.update s _) _) _) _).toNat
      = Crc.step (Crc.step (Crc.step (Crc.step s.toNat (UInt32.toNat x)) _) _) _
    rw [hstep _ _ _ (hbyte 24 (by decide)), hstep _ _ _ (hbyte 16 (by decide)),
      hstep _ _ _ (hbyte 8 (by decide)), hstep _ _ _ (UInt32.toNat_toUInt8 x)]
    simp only [← Nat.shiftRight_add]
    rfl
  | u16 =>
    have hhigh : (UInt16.toUInt8 (x >>> 8)).toNat = (UInt16.toNat x >>> 8) % 256 := by
      rw [UInt16.toNat_toUInt8, UInt16.toNat_shiftRight]
      rfl
    show (Crc.update (Crc.update s _) _).toNat = Crc.step (Crc.step s.toNat (UInt16.toNat x)) _
    rw [hstep _ _ _ hhigh, hstep _ _ _ (UInt16.toNat_toUInt8 x)]
    rfl
  | u8 => exact Crc.toNat_update s x

/-! ### The reference data as numbers -/

/-- The number of the pattern nearest to a quotient, in the range of
`F32.toNat_nearestQuotient`. -/
def quotientNumber (n d : Nat) : Nat :=
  let f := ((n <<< 32) / d).log2
  ((f + 94) <<< 23) + divNearestEven (n <<< (55 - f)) d

/-- The number lies between the places of two powers of two that the quotient lies between. -/
theorem toNat_nearestQuotient {n d a b : Nat} (hd : 0 < d) (ha : 2 ^ a * d ≤ n * 2 ^ 32)
    (hb : n * 2 ^ 32 < 2 ^ b * d) (hsmall : b ≤ 56) :
    (F32.nearestQuotient n d).toNat = quotientNumber n d ∧
      (a + 95) * 2 ^ 23 ≤ quotientNumber n d ∧ quotientNumber n d ≤ (b + 95) * 2 ^ 23 := by
  have hone : 2 ^ a ≤ n * 2 ^ 32 / d := (Nat.le_div_iff_mul_le hd).mpr ha
  have hpos : n * 2 ^ 32 / d ≠ 0 := (Nat.two_pow_pos a).trans_le hone |>.ne'
  have hge : a ≤ (n * 2 ^ 32 / d).log2 := (Nat.le_log2 hpos).mpr hone
  have hlt : (n * 2 ^ 32 / d).log2 < b :=
    (Nat.log2_lt hpos).mpr (Nat.div_lt_of_lt_mul (Nat.mul_comm d _ ▸ hb))
  have hfloor := (Nat.le_div_iff_mul_le hd).mp (Nat.log2_self_le hpos)
  have hceil := (Nat.div_lt_iff_lt_mul hd).mp (Nat.lt_log2_self (n := n * 2 ^ 32 / d))
  obtain ⟨hsiglo, hsighi⟩ :=
    F32.divNearestEven_significand_bounds hd (by omega) hfloor hceil
  have hnumber : quotientNumber n d = ((n * 2 ^ 32 / d).log2 + 94) * 2 ^ 23
      + divNearestEven (n * 2 ^ (55 - (n * 2 ^ 32 / d).log2)) d := by
    simp only [quotientNumber, Nat.shiftLeft_eq]
  rw [F32.toNat_nearestQuotient hd (by omega) hfloor hceil, hnumber]
  refine ⟨rfl, ?_, ?_⟩
  · have hplace : (a + 94) * 2 ^ 23 ≤ ((n * 2 ^ 32 / d).log2 + 94) * 2 ^ 23 :=
      Nat.mul_le_mul_right _ (by omega)
    linarith
  · have hplace : ((n * 2 ^ 32 / d).log2 + 94) * 2 ^ 23 ≤ (b + 93) * 2 ^ 23 :=
      Nat.mul_le_mul_right _ (by omega)
    linarith

/-- The number of the reference float at an index. -/
def floatNumber (i : Nat) : Nat :=
  let thousandths := if i = 0 then 0 else quotientNumber i 1000
  quotientNumber (F32.units 0x3F8FCD6F + F32.units thousandths) (1 <<< 149)

/-- The reference floats lie well within the normal patterns. -/
theorem toNat_referenceFloat {i : Nat} (hi : i < referenceLength) :
    (referenceFloat i).toNat = floatNumber i ∧
      127 * 2 ^ 23 ≤ floatNumber i ∧ floatNumber i ≤ 133 * 2 ^ 23 := by
  have hi' : i < 4608 := hi
  have hstart : (decimal9 1123456789).toNat = 0x3F8FCD6F := by decide +kernel
  obtain ⟨t, ht, htoNat, hle⟩ : ∃ t, (if i = 0 then 0 else quotientNumber i 1000) = t ∧
      (F32.nearestQuotient i 1000).toNat = t ∧ t ≤ 130 * 2 ^ 23 := by
    split_ifs with hzero
    · exact ⟨0, rfl, by rw [hzero]; rfl, Nat.zero_le _⟩
    · obtain ⟨heq, -, hle⟩ := toNat_nearestQuotient (n := i) (d := 1000) (a := 0) (b := 35)
        (by decide) (by omega) (by omega) (by decide)
      exact ⟨_, rfl, heq, hle⟩
  have hunits : F32.units t < 2 ^ 154 := F32.units_lt (e := 130) (by omega)
  have hbase : 2 ^ 149 ≤ F32.units 0x3F8FCD6F ∧ F32.units 0x3F8FCD6F < 2 ^ 150 := by
    decide +kernel
  obtain ⟨heq, hlo, hhi⟩ := toNat_nearestQuotient
    (n := F32.units 0x3F8FCD6F + F32.units t) (d := 2 ^ 149) (a := 32) (b := 38)
    (by positivity) (by linarith) (by linarith) (by decide)
  have hnumber : floatNumber i = quotientNumber (F32.units 0x3F8FCD6F + F32.units t) (2 ^ 149) := by
    rw [floatNumber, ht, Nat.one_shiftLeft]
  rw [hnumber]
  refine ⟨?_, hlo, hhi⟩
  rw [referenceFloat, F32.div_ofNat (by omega) (by decide) (by decide),
    F32.add_eq (by rw [hstart]; decide) (F32.toNat_nearestQuotient_lt i 1000), hstart, htoNat]
  exact heq

/-! ### The conversions as numbers -/

/-- The number of the element at an index, converted. -/
def resultNumber : Direction → Nat → Nat
  | .f32ToF16, i => divNearestEven (floatNumber i - (112 <<< 23)) 8192
  | .f16ToF32, i => ((0x3C00 + i) <<< 13) + (112 <<< 23)
  | .f32ToBf16, i => divNearestEven (floatNumber i) 65536
  | .bf16ToF32, i => (0x3C00 + i) <<< 16
  | .f32ToU8 _, i =>
    let x := floatNumber i
    divNearestEven (8388608 + x % 8388608) (1 <<< (150 - x / 8388608))
  | .u8ToF32, i =>
    let byte := i % 256
    if byte = 0 then 0 else ((byte.log2 + 126) <<< 23) + (byte <<< (23 - byte.log2))

/-- Reference data are neither negative nor NaN, and not so great that they would overflow. -/
theorem toNat_scalar (d : Direction) {i : Nat} (hi : i < referenceLength) :
    d.target.toNat (d.scalar (referenceElement d.source i)) = resultNumber d i := by
  have hi' : i < 4608 := hi
  obtain ⟨hfloat, hlo, hhi⟩ := toNat_referenceFloat hi
  have he := F32.exponent_eq (referenceFloat i)
  have hnan : F32.isNaN (referenceFloat i) = false := F32.not_isNaN_of_exponent_lt (by omega)
  have hhalf : (referenceHalf i).toNat = 0x3C00 + i := by
    have hoffset : (0x3C00 : UInt16).toNat = 0x3C00 := rfl
    rw [referenceHalf, UInt16.toNat_add, UInt16.toNat_ofNat', hoffset]
    omega
  cases d with
  | f32ToF16 =>
    have hmod : (referenceFloat i).toNat % 2 ^ 31 = floatNumber i := by omega
    have hpos : (referenceFloat i).toNat / 2 ^ 31 = 0 := by omega
    have hbelow : divNearestEven (floatNumber i - 112 * 2 ^ 23) (2 ^ 13) ≤ 31 * 2 ^ 10 :=
      divNearestEven_le (by norm_num) (by omega)
    show (F16.ofF32 (referenceFloat i)).toNat = _
    rw [F16.toNat_ofF32_of_normal (by omega) (by omega), hmod, hpos, Nat.zero_mul, Nat.zero_add,
      Nat.min_eq_right hbelow, resultNumber, Nat.shiftLeft_eq]
    rfl
  | f16ToF32 =>
    show (F16.toF32 (referenceHalf i)).toNat = _
    have hsmall : (referenceHalf i).toNat < 2 ^ 15 := by omega
    rw [F16.toNat_toF32_of_normal (by omega) (by omega), Nat.mod_eq_of_lt hsmall,
      Nat.div_eq_of_lt hsmall, Nat.zero_mul, Nat.zero_add, hhalf, resultNumber, Nat.shiftLeft_eq,
      Nat.shiftLeft_eq]
  | f32ToBf16 =>
    show (Bf16.ofF32 (referenceFloat i)).toNat = _
    rw [Bf16.toNat_ofF32 hnan, hfloat]
    rfl
  | bf16ToF32 =>
    show (Bf16.toF32 (referenceHalf i)).toNat = _
    rw [Bf16.toNat_toF32, hhalf, resultNumber, Nat.shiftLeft_eq]
  | f32ToU8 overflow =>
    have hsmall : F32.nearestMagnitude (referenceFloat i) < 2 ^ 8 := by
      refine (F32.nearestMagnitude_bounds (by omega)).2.trans_lt ?_
      rw [← pow_succ']
      exact Nat.pow_lt_pow_right Nat.one_lt_two (by omega)
    have hexponent : F32.exponent (referenceFloat i) = floatNumber i / 2 ^ 23 := by omega
    have hdown : floatNumber i / 2 ^ 23 - 150 = 0 := by omega
    show (Byte.ofF32 overflow (referenceFloat i)).toNat = _
    rw [Byte.toNat_ofF32_of_lt overflow hnan (by omega) hsmall, F32.nearestMagnitude,
      F32.significand_eq, hexponent, hfloat, hdown, pow_zero, Nat.mul_one]
    simp only [resultNumber, Nat.one_shiftLeft]
    rfl
  | u8ToF32 =>
    have hbyte : (referenceByte i).toNat = i % 256 := UInt8.toNat_ofNat'
    show (F32.ofNat (referenceByte i).toNat).toNat = _
    simp only [hbyte, resultNumber, Nat.shiftLeft_eq]
    split_ifs with hzero
    · rw [hzero]
      rfl
    · exact F32.toNat_ofNat_of_lt (Nat.pos_of_ne_zero hzero) (by omega)

/-! ### The computation -/

/-- A loop over consecutive indices.  The running value is taken apart after every step, so
that it is evaluated there and not at the end. -/
def loop (f : Nat → Nat → Nat) : Nat → Nat → Nat → Nat
  | 0, _, s => s
  | n + 1, i, s =>
    match f s i with
    | 0 => loop f n (i + 1) 0
    | t + 1 => loop f n (i + 1) (t + 1)

theorem loop_succ (f : Nat → Nat → Nat) (n i s : Nat) :
    loop f (n + 1) i s = loop f n (i + 1) (f s i) := by
  rw [loop]
  cases f s i <;> rfl

theorem loop_eq_foldl (f : Nat → Nat → Nat) (n i s : Nat) :
    loop f n i s = (List.range' i n).foldl f s := by
  induction n generalizing i s with
  | zero => rfl
  | succ n ih => rw [loop_succ, ih, List.range'_succ, List.foldl_cons]

/-- The running value after the results of a direction and the zeros after them. -/
def computed (d : Direction) : Nat :=
  loop (fun s _ => Crc.step s 0) (referenceBytes - referenceLength * d.target.width) 0
    (loop (fun s i => Crc.steps d.target.width (resultNumber d i) s) referenceLength 0 0xFFFFFFFF)

theorem computed_eq (d : Direction) : computed d = (~~~expectedChecksum d).toNat := by
  cases d with
  | f32ToF16 => decide +kernel
  | f16ToF32 => decide +kernel
  | f32ToBf16 => decide +kernel
  | bf16ToF32 => decide +kernel
  | f32ToU8 overflow =>
    -- the results do not depend on the overflow rule, so one of the two is computed
    show computed (.f32ToU8 .saturating) = (~~~expectedChecksum (.f32ToU8 .saturating)).toNat
    decide +kernel
  | u8ToF32 => decide +kernel

/-! ### The checksums -/

theorem trialSource_eq (d : Direction) :
    trialSource d = (Array.range referenceLength).map (referenceElement d.source) := by
  have hsize : ((Array.range referenceLength).map (referenceElement d.source)).size
      = referenceLength := by rw [Array.size_map, Array.size_range]
  rw [trialSource, standard_data, referenceData, Array.extract_append, hsize, Nat.sub_self,
    Array.extract_zero, Array.append_empty]
  exact Array.extract_eq_self_of_le hsize.le

/-- The elements of the destination, the zeros after them included. -/
theorem toList_splice_zeros {d : Direction} {part : Array d.Target}
    (h : part.size = referenceLength) :
    (Slice.splice (zeros d) 0 part).toList
      = part.toList ++ List.replicate (referenceBytes / d.target.width - referenceLength)
          d.target.zero := by
  have hle := referenceLength_le d.target
  have hall : part.extract 0 (referenceBytes / d.target.width) = part :=
    Array.extract_eq_self_of_le (by omega)
  have hnone : (zeros d).extract 0 0 = #[] := Array.extract_zero
  have hrest : (zeros d).extract referenceLength (referenceBytes / d.target.width)
      = Array.replicate (referenceBytes / d.target.width - referenceLength) d.target.zero := by
    rw [zeros, Array.extract_replicate, Nat.min_self]
  have hsize : (zeros d).size = referenceBytes / d.target.width := Array.size_replicate
  rw [Slice.splice, hnone, hsize, Nat.sub_zero, hall, Nat.zero_add, h, hrest, Array.empty_append,
    Array.toList_append, Array.toList_replicate]

theorem toNat_foldl_map {e : Element} {α : Type} (g : α → e.Bits) (number : α → Nat) (xs : List α)
    (h : ∀ a ∈ xs, e.toNat (g a) = number a) (s : UInt32) :
    (((xs.map g).flatMap e.bytes).foldl Crc.update s).toNat
      = xs.foldl (fun s a => Crc.steps e.width (number a) s) s.toNat := by
  induction xs generalizing s with
  | nil => rfl
  | cons a xs ih =>
    rw [List.map_cons, List.flatMap_cons, List.foldl_append, List.foldl_cons,
      ih fun b hb => h b (List.mem_cons_of_mem a hb), toNat_foldl_bytes, h a List.mem_cons_self]

/-- A running value through zeros. -/
theorem toNat_foldl_zeros (e : Element) (n : Nat) (s : UInt32) :
    (((List.replicate n e.zero).flatMap e.bytes).foldl Crc.update s).toNat
      = loop (fun s _ => Crc.step s 0) (n * e.width) 0 s.toNat := by
  have hzeros : ∀ m i (s : UInt32), ((List.replicate m 0).foldl Crc.update s).toNat
      = loop (fun s _ => Crc.step s 0) m i s.toNat := by
    intro m
    induction m with
    | zero => exact fun _ _ => rfl
    | succ m ih =>
      intro i s
      rw [List.replicate_succ, List.foldl_cons, ih (i + 1), loop_succ, Crc.toNat_update]
      rfl
  have hbytes : e.bytes e.zero = List.replicate e.width 0 := by cases e <;> rfl
  have hflat : (List.replicate n e.zero).flatMap e.bytes = List.replicate (n * e.width) 0 := by
    rw [List.flatMap_replicate, hbytes, List.flatten_replicate_replicate]
  rw [hflat, hzeros _ 0]

/-- **The recorded checksums are those of the scalar conversions.** -/
theorem checksum_scalar (d : Direction) :
    checksum d.target (Slice.splice (zeros d) 0 ((trialSource d).map d.scalar))
      = expectedChecksum d := by
  have hsize : ((trialSource d).map d.scalar).size = referenceLength := by
    rw [Array.size_map, size_trialSource]
  have hresults : ((trialSource d).map d.scalar).toList
      = (List.range referenceLength).map fun i => d.scalar (referenceElement d.source i) := by
    rw [trialSource_eq, Array.map_map, Array.toList_map, Array.toList_range]
    rfl
  have htail : (referenceBytes / d.target.width - referenceLength) * d.target.width
      = referenceBytes - referenceLength * d.target.width := by
    have hwhole : ∀ e : Element, referenceBytes / e.width * e.width = referenceBytes := by
      intro e
      cases e <;> decide
    rw [Nat.sub_mul, hwhole]
  have hfold : (((Slice.splice (zeros d) 0 ((trialSource d).map d.scalar)).toList.flatMap
      d.target.bytes).foldl Crc.update 0xFFFFFFFF).toNat = computed d := by
    rw [toList_splice_zeros hsize, hresults, List.flatMap_append, List.foldl_append,
      toNat_foldl_zeros, htail,
      toNat_foldl_map _ (resultNumber d) _ fun i hi => toNat_scalar d (List.mem_range.mp hi),
      List.range_eq_range', ← loop_eq_foldl]
    rfl
  rw [checksum, crc32, Element.bytesOf, UInt32.not_eq_comm]
  exact UInt32.toNat_inj.mp (hfold.trans (computed_eq d))

end Lanewise

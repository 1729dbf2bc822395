/-
Lanewise/Proofs/Detection.lean

What validation notices of a single wrong element.

Validation compares checksums and never sees the destination.  The recorded checksum is
that of the scalar conversion (`checksum_scalar`), so a kernel whose destination differs
from the scalar one in one element is rejected unless the difference is blind:

    Blind (x ^^^ y)   iff   validation passes        (x in the scalar destination, y instead)

(`validateKernel_of_one_difference`).  A wrong byte is always noticed.  Of the differences
of a half-precision element one in 512 is not, and of those of a float one in 2048.
`spoiled` is a kernel to half precision for each difference, wrong in its element 1234 only.
-/
import Lanewise.Proofs.Faults
import Lanewise.Proofs.Recorded

namespace Lanewise

/-- A trial up to its checksum: the destination that is left, and the count. -/
def ReferenceSet.destination (fixture : ReferenceSet) (d : Direction)
    (kernel? : Option Kernel) : Session (Array d.Target × Nat) := do
  let src := (fixture.data d.source).extract 0 referenceLength
  let dst ← AlignedBuffer.zeroed d.target (referenceBytes / d.target.width) Host.pageAlignment
  Session.convertInto dst.data (Converting.within 0 referenceLength (convertWith kernel? d src))

section

variable {fixture : ReferenceSet} {d : Direction} {k : Kernel} {kernel? : Option Kernel}
  {caps : Capabilities} {host host' : Host} {count : Nat}

theorem trial_of_destination {out : Array d.Target}
    (h : fixture.destination d kernel? host = .ok (out, count) host') :
    fixture.trial d kernel? host = .ok (checksum d.target out, count) host' := by
  have htrial : fixture.trial d kernel?
      = fixture.destination d kernel? >>= fun r => pure (checksum d.target r.1, r.2) := by
    rw [ReferenceSet.destination, bind_assoc]
    rfl
  rw [htrial]
  exact run_bind_of_ok h

/-- Where the count is right, the checksum of the destination decides. -/
theorem validateKernel_of_destination {out : Array k.direction.Target} (hcaps : caps.Permits k)
    (hblock : k.block ≠ 0)
    (h : fixture.destination k.direction (some k) host
      = .ok (out, Loop.reach k.block referenceLength) host') :
    validateKernel k caps fixture host
      = if checksum k.direction.target out = expectedChecksum k.direction then .ok () host'
        else .error (.error (.checksumMismatch k.name (expectedChecksum k.direction)
          (checksum k.direction.target out))) host' := by
  have hmissing := Capabilities.permits_iff_missing?.mp hcaps
  rw [validateKernel, hmissing]
  refine (run_bind_of_ok (trial_of_destination h)).trans ?_
  simp only [hblock, if_false, ne_eq, not_true_eq_false]
  by_cases hsum : checksum k.direction.target out = expectedChecksum k.direction
  · rw [if_pos hsum, if_neg (not_not.mpr hsum)]
    rfl
  · rw [if_neg hsum, if_pos hsum]
    rfl

/-! ### Destinations -/

theorem destination_of_refused (h : host.refuses host.requested = true) :
    fixture.destination d kernel? host = .error (.error refusal) (host.asked 1) :=
  run_bind_of_error (AlignedBuffer.zeroed_of_refused h)

theorem destination_none_of_granted (h : host.refuses host.requested = false) :
    ReferenceSet.standard.destination d none host
      = .ok (Slice.splice (zeros d) 0 ((trialSource d).map d.scalar), 0) (host.asked 1) := by
  have hinto : Session.convertInto (zeros d) (Converting.within 0 referenceLength
      (convertWith none d (trialSource d))) (host.asked 1)
      = .ok (Slice.splice (zeros d) 0 ((trialSource d).map d.scalar), 0) (host.asked 1) := by
    rw [Session.convertInto, Converting.within, extract_zeros,
      convertWith_none_run (size_trialTarget d)]
    show EStateM.Result.ok _
      { host.asked 1 with journal := (host.asked 1).journal ++ #[].map Event.called } = _
    rw [Array.map_empty, Array.append_empty]
  exact (run_bind_of_ok (AlignedBuffer.zeroed_of_granted h)).trans hinto

theorem destination_of_le (h : host.refuses host.requested = false)
    (hcount : k.trialCount ≤ referenceLength) :
    ReferenceSet.standard.destination k.direction (some k) host
      = .ok (Slice.splice (zeros k.direction) 0 k.trialConverted, k.trialCount) (host.tried k) := by
  have hinto := convertInto_trial k (host.asked 1)
  rw [Kernel.convertWith_trial hcount] at hinto
  exact (run_bind_of_ok (AlignedBuffer.zeroed_of_granted h)).trans hinto

/-- The scalar conversion has the recorded checksum. -/
theorem checksum_destination_none {expected : Array d.Target}
    (h : ReferenceSet.standard.destination d none host = .ok (expected, count) host') :
    checksum d.target expected = expectedChecksum d := by
  cases hrefuses : host.refuses host.requested with
  | true =>
    rw [destination_of_refused hrefuses] at h
    cases h
  | false =>
    rw [destination_none_of_granted hrefuses] at h
    cases h
    exact checksum_scalar d

/-! ### One wrong element -/

theorem toNat_word_xor_lt {e : Element} (x y : e.Bits) :
    (e.word x ^^^ e.word y).toNat < 2 ^ (8 * e.width) := by
  rw [UInt32.toNat_xor, Element.toNat_word, Element.toNat_word]
  exact Nat.xor_lt_two_pow (Element.toNat_lt x) (Element.toNat_lt y)

/-- No two bytes differ by a blind difference. -/
theorem not_blind_of_byte {e : Element} (he : e = .u8) {x y : e.Bits} (h : y ≠ x) :
    ¬ Blind e (e.word x ^^^ e.word y) := by
  subst he
  rintro ⟨chosen, hchosen, hzero⟩
  obtain rfl := List.sublist_nil.mp hchosen
  exact h (Element.word_injective (UInt32.xor_eq_zero_iff.mp hzero)).symm

/-- What validation says of a kernel with one wrong element. -/
theorem validateKernel_of_set {host₁ host₁' : Host} {n i : Nat}
    {expected : Array k.direction.Target} {x y : k.direction.Target} (hcaps : caps.Permits k)
    (hblock : k.block ≠ 0)
    (hrun : ReferenceSet.standard.destination k.direction (some k) host
      = .ok (expected.setIfInBounds i y, Loop.reach k.block referenceLength) host')
    (hscalar : ReferenceSet.standard.destination k.direction none host₁ = .ok (expected, n) host₁')
    (hx : expected[i]? = some x) :
    (¬ Blind k.direction.target (k.direction.target.word x ^^^ k.direction.target.word y) →
      validateKernel k caps .standard host = .error (.error (.checksumMismatch k.name
        (expectedChecksum k.direction)
        (checksum k.direction.target (expected.setIfInBounds i y)))) host') ∧
    (Blind k.direction.target (k.direction.target.word x ^^^ k.direction.target.word y) →
      validateKernel k caps .standard host = .ok () host') := by
  have hsame : checksum k.direction.target (expected.setIfInBounds i y)
        = expectedChecksum k.direction
      ↔ Blind k.direction.target (k.direction.target.word x ^^^ k.direction.target.word y) := by
    rw [← checksum_destination_none hscalar, checksum_setIfInBounds_eq_iff hx,
      blind_iff (toNat_word_xor_lt x y)]
  rw [validateKernel_of_destination hcaps hblock hrun]
  exact ⟨fun h => if_neg (mt hsame.mp h), fun h => if_pos (hsame.mpr h)⟩

/-- **One wrong element is noticed exactly if its difference is not blind.**  The run of the
kernel gives the count that its blocks imply, and a destination that differs from that of the
scalar run in one element. -/
theorem validateKernel_of_one_difference {start made host₁ host₁' : Host} {n i : Nat}
    {out expected : Array k.direction.Target} {x y : k.direction.Target}
    (hmake : ReferenceSet.make start = .ok fixture made) (hcaps : caps.Permits k)
    (hblock : k.block ≠ 0)
    (hrun : fixture.destination k.direction (some k) host
      = .ok (out, Loop.reach k.block referenceLength) host')
    (hscalar : fixture.destination k.direction none host₁ = .ok (expected, n) host₁')
    (hx : expected[i]? = some x) (hy : y ≠ x) (hout : out = expected.setIfInBounds i y) :
    (¬ Blind k.direction.target (k.direction.target.word x ^^^ k.direction.target.word y) →
      validateKernel k caps fixture host = .error (.error (.checksumMismatch k.name
        (expectedChecksum k.direction) (checksum k.direction.target out))) host') ∧
    (Blind k.direction.target (k.direction.target.word x ^^^ k.direction.target.word y) →
      validateKernel k caps fixture host = .ok () host') ∧
    (k.direction.target = .u8 →
      validateKernel k caps fixture host = .error (.error (.checksumMismatch k.name
        (expectedChecksum k.direction) (checksum k.direction.target out))) host') := by
  obtain rfl := ReferenceSet.make_eq_standard hmake
  subst hout
  obtain ⟨hnoticed, hmissed⟩ := validateKernel_of_set hcaps hblock hrun hscalar hx
  exact ⟨hnoticed, hmissed, fun hbyte => hnoticed (not_blind_of_byte hbyte hy)⟩

end

/-! ### A kernel with one wrong element -/

/-- A kernel to half precision that is exact with blocks of eight, but for the bits of a
difference in the element 1234. -/
abbrev spoiled (difference : UInt16) : Kernel where
  name := "spoiled"
  direction := .f32ToF16
  isa := .avx512
  requires := []
  lanes := 4
  unroll := 2
  combinedWrite := false
  preferred := true
  func := fun {n} src dst =>
    let out := Samples.convertFirst F16.ofF32 (Samples.eights n) src dst
    (Vector.ofFn fun j => if j.val = 1234 then out.get j ^^^ difference else out.get j,
      Samples.eights n)

section

variable (difference : UInt16)

theorem trialCount_spoiled : (spoiled difference).trialCount = referenceLength := by
  have hcount : (spoiled difference).trialCount
      = Samples.eights (trialSource .f32ToF16).size := rfl
  rw [hcount, size_trialSource]
  decide

/-- The elements of the trial: each is converted, and one is spoiled afterwards. -/
theorem getElem?_trial_spoiled (j : Nat) :
    (spoiled difference).trial.1[j]?
      = (((trialSource .f32ToF16).map F16.ofF32)[j]?).map
        fun x => if j = 1234 then x ^^^ difference else x := by
  rcases Nat.lt_or_ge j (trialSource .f32ToF16).size with hj | hj
  · have heights : Samples.eights (trialSource .f32ToF16).size = (trialSource .f32ToF16).size := by
      rw [size_trialSource]
      decide
    have hout : (Samples.convertFirst F16.ofF32 (Samples.eights (trialSource .f32ToF16).size)
        ⟨trialSource .f32ToF16, rfl⟩
        ⟨trialTarget .f32ToF16, (size_trialTarget .f32ToF16).symm⟩).get ⟨j, hj⟩
        = F16.ofF32 (trialSource .f32ToF16)[j] :=
      (Vector.getElem_ofFn hj).trans (if_pos (hj.trans_eq heights.symm))
    rw [Kernel.trial, Vector.getElem?_toArray, Vector.getElem?_eq_getElem hj, Array.getElem?_map,
      Array.getElem?_eq_getElem hj]
    refine congrArg some ((Vector.getElem_ofFn hj).trans ?_)
    show (if j = 1234 then _ ^^^ difference else _) = _
    rw [hout]
  · have hmap : ((trialSource .f32ToF16).map F16.ofF32).size ≤ j := by rwa [Array.size_map]
    rw [Array.getElem?_eq_none hmap, Array.getElem?_eq_none ((Kernel.size_trial _).trans_le hj)]
    rfl

/-- The scalar results, but for one. -/
theorem trialConverted_spoiled {x : UInt16}
    (hx : ((trialSource .f32ToF16).map F16.ofF32)[1234]? = some x) :
    (spoiled difference).trialConverted
      = ((trialSource .f32ToF16).map F16.ofF32).setIfInBounds 1234 (x ^^^ difference) := by
  have hcount : (spoiled difference).trialCount = (trialSource .f32ToF16).size := by
    rw [trialCount_spoiled, size_trialSource]
  have hsize : (spoiled difference).trial.1.size = (trialSource .f32ToF16).size :=
    (spoiled difference).size_trial
  have htail : (((trialSource .f32ToF16).extract (spoiled difference).trialCount
      (trialSource .f32ToF16).size).map F16.ofF32).size = 0 := by
    rw [Array.size_map, Array.size_extract, hcount]
    omega
  refine Array.ext_getElem? fun j => ?_
  show (Slice.splice (spoiled difference).trial.1 (spoiled difference).trialCount
    (((trialSource .f32ToF16).extract (spoiled difference).trialCount
      (trialSource .f32ToF16).size).map F16.ofF32))[j]? = _
  rw [Slice.getElem?_splice (by omega), if_neg (by omega), getElem?_trial_spoiled,
    Array.getElem?_setIfInBounds]
  obtain ⟨hlt, -⟩ := Array.getElem?_eq_some_iff.mp hx
  by_cases hj : 1234 = j
  · subst hj
    rw [hx, if_pos rfl, if_pos hlt, Option.map_some, if_pos rfl]
  · rw [if_neg hj]
    simp only [if_neg (Ne.symm hj), Option.map_id']

/-- Writing into a part and then writing the part. -/
theorem splice_zeros_set {d : Direction} {part : Array d.Target} {i : Nat}
    (h : part.size = referenceLength) (hi : i < referenceLength) (y : d.Target) :
    Slice.splice (zeros d) 0 (part.setIfInBounds i y)
      = (Slice.splice (zeros d) 0 part).setIfInBounds i y := by
  have hset : (part.setIfInBounds i y).size = referenceLength := by
    rw [Array.size_setIfInBounds, h]
  rw [← Array.toList_inj, Array.toList_setIfInBounds, toList_splice_zeros hset,
    toList_splice_zeros h, Array.toList_setIfInBounds,
    List.set_append_left _ _ (by rw [Array.length_toList, h]; exact hi)]

/-- The trial of the spoiled kernel, beside the scalar one. -/
theorem destination_spoiled (host : Host) (h : host.refuses host.requested = false) :
    ∃ (expected : Array UInt16) (x : UInt16) (n : Nat) (host₁ host' : Host),
      ReferenceSet.standard.destination .f32ToF16 none host = .ok (expected, n) host₁ ∧
      ReferenceSet.standard.destination .f32ToF16 (some (spoiled difference)) host
        = .ok (expected.setIfInBounds 1234 (x ^^^ difference),
            Loop.reach (spoiled difference).block referenceLength) host' ∧
      expected[1234]? = some x := by
  have hresults : ((trialSource .f32ToF16).map F16.ofF32).size = referenceLength := by
    rw [Array.size_map, size_trialSource]
  obtain ⟨x, hx⟩ : ∃ x, ((trialSource .f32ToF16).map F16.ofF32)[1234]? = some x := by
    refine ⟨_, Array.getElem?_eq_getElem ?_⟩
    rw [hresults]
    decide
  have hscalar := destination_none_of_granted (d := .f32ToF16) h
  have hreach : (spoiled difference).trialCount
      = Loop.reach (spoiled difference).block referenceLength := by
    have hblock : (spoiled difference).block = 8 := rfl
    rw [trialCount_spoiled, hblock]
    decide
  have hrun := destination_of_le (k := spoiled difference) h (trialCount_spoiled difference).le
  rw [trialConverted_spoiled difference hx, hreach, splice_zeros_set hresults (by decide)] at hrun
  refine ⟨_, x, 0, _, _, hscalar, hrun, ?_⟩
  rw [← Array.getElem?_toList, toList_splice_zeros hresults, List.getElem?_append_left,
    Array.getElem?_toList]
  · exact hx
  · rw [Array.length_toList]
    exact hresults ▸ (by decide : 1234 < referenceLength)

theorem xor_word_spoiled (x : UInt16) :
    Element.u16.word x ^^^ Element.u16.word (x ^^^ difference) = Element.u16.word difference := by
  rw [← UInt32.toNat_inj, UInt32.toNat_xor, Element.toNat_word, Element.toNat_word,
    Element.toNat_word]
  show x.toNat ^^^ (x ^^^ difference).toNat = difference.toNat
  rw [UInt16.toNat_xor, ← Nat.xor_assoc, Nat.xor_self, Nat.zero_xor]

variable {difference} in
theorem xor_ne_self (h : difference ≠ 0) (x : UInt16) : x ^^^ difference ≠ x := by
  intro hsame
  exact h ((UInt16.xor_right_inj x).mp (hsame.trans UInt16.xor_zero.symm))

end

/-- With bit 0 of the element 1234 wrong, the kernel is rejected. -/
theorem validateKernel_spoiled_rejected :
    ∃ (expected : Array UInt16) (x : UInt16) (n : Nat) (host₁ host' : Host),
      ReferenceSet.standard.destination .f32ToF16 none ((Host.refusing []).asked 3)
        = .ok (expected, n) host₁ ∧
      expected[1234]? = some x ∧
      ReferenceSet.standard.destination .f32ToF16 (some (spoiled 1)) ((Host.refusing []).asked 3)
        = .ok (expected.setIfInBounds 1234 (x ^^^ 1),
            Loop.reach (spoiled 1).block referenceLength) host' ∧
      validateKernel (spoiled 1) .none .standard ((Host.refusing []).asked 3)
        = .error (.error (.checksumMismatch "spoiled" 3373450706
            (checksum .u16 (expected.setIfInBounds 1234 (x ^^^ 1))))) host' := by
  obtain ⟨expected, x, n, host₁, host', hscalar, hrun, hx⟩ :=
    destination_spoiled 1 ((Host.refusing []).asked 3) rfl
  have hsharp : ¬ Blind .u16 (Element.u16.word x ^^^ Element.u16.word (x ^^^ 1)) := by
    rw [xor_word_spoiled, blind_iff (by decide)]
    decide +kernel
  have hmake : ReferenceSet.make (Host.refusing []) = .ok .standard ((Host.refusing []).asked 3) :=
    ReferenceSet.make_of_granted fun _ _ => rfl
  have hpermits : Capabilities.none.Permits (spoiled 1) := rfl
  obtain ⟨hnoticed, -⟩ := validateKernel_of_one_difference hmake hpermits (by decide) hrun hscalar
    hx (xor_ne_self (by decide) x) rfl
  exact ⟨expected, x, n, host₁, host', hscalar, hx, hrun, hnoticed hsharp⟩

/-- With the bits of a blind word wrong in it, the kernel passes. -/
theorem validateKernel_spoiled_passes :
    ∃ (expected : Array UInt16) (x : UInt16) (n : Nat) (host₁ host' : Host),
      ReferenceSet.make (Host.refusing []) = .ok .standard ((Host.refusing []).asked 3) ∧
      Capabilities.none.Permits (spoiled 0x0236) ∧ (spoiled 0x0236).block ≠ 0 ∧
      ReferenceSet.standard.destination .f32ToF16 none ((Host.refusing []).asked 3)
        = .ok (expected, n) host₁ ∧
      expected[1234]? = some x ∧ x ^^^ 0x0236 ≠ x ∧
      ReferenceSet.standard.destination .f32ToF16 (some (spoiled 0x0236))
          ((Host.refusing []).asked 3)
        = .ok (expected.setIfInBounds 1234 (x ^^^ 0x0236),
            Loop.reach (spoiled 0x0236).block referenceLength) host' ∧
      validateKernel (spoiled 0x0236) .none .standard ((Host.refusing []).asked 3)
        = .ok () host' := by
  obtain ⟨expected, x, n, host₁, host', hscalar, hrun, hx⟩ :=
    destination_spoiled 0x0236 ((Host.refusing []).asked 3) rfl
  have hpermits : Capabilities.none.Permits (spoiled 0x0236) := rfl
  have hblind : Blind .u16 (Element.u16.word x ^^^ Element.u16.word (x ^^^ 0x0236)) := by
    rw [xor_word_spoiled]
    exact ⟨[0x0236], by decide, rfl⟩
  obtain ⟨-, hmissed⟩ := validateKernel_of_set hpermits (by decide) hrun hscalar hx
  exact ⟨expected, x, n, host₁, host', ReferenceSet.make_of_granted fun _ _ => rfl, hpermits,
    by decide, hscalar, hx, xor_ne_self (by decide) x, hrun, hmissed hblind⟩

end Lanewise

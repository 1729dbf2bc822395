/-
Lanewise/Proofs/Shifting.lean

The rounding shift, and the shifts it is asked for.

`shiftRightNearestEven` never divides, but its round bit, its sticky bit and the low bit of
what is kept are the quotient rounded to nearest, the even one of two
(`isNearestInt_shiftRightNearestEven`).  Nothing is lost on the way, whatever the word
(`shiftRightNearestEvenBy_exact`).

The rounding to binary16 uses it in two places.  To see all shifts that occur, the rounding is
taken out of the definition as a parameter (`F16.ofF32Rounding`) and filled in with one that
notes what it is asked for (`Rounding.note`).  The notes change nothing, and there is at most
one of them (`F16.ofF32Rounding_note`):

    exponent 113 to 142    the mantissa by 13
    exponent 102 to 112    the significand by 126 - exponent

So a shift is 13, or it is one of 14 to 24 (`F16.shift_of_mem_roundings`).
-/
import Lanewise.Proofs.Bytes
import Lanewise.Proofs.Wrapping

namespace Lanewise

/-! ### The nearest integer of a quotient by a power of two -/

theorem isNearestInt_shiftRightNearestEven (v : UInt32) {s : UInt32} (hlo : 1 ≤ s.toNat)
    (hhi : s.toNat ≤ 31) :
    IsNearestInt ((v.toNat : ℚ) / 2 ^ s.toNat) (shiftRightNearestEven v s).toNat := by
  have hnearest := isNearestInt_sign_mul (n := v.toNat) (Nat.two_pow_pos s.toNat)
    (.inl rfl : (1 : Int) = 1 ∨ (1 : Int) = -1)
  rw [Int.cast_one, one_mul, Int.one_mul, Nat.cast_pow, Nat.cast_ofNat] at hnearest
  rwa [toNat_shiftRightNearestEven v hlo hhi]

/-- With the arithmetic of the definitions, the steps are the definition. -/
theorem shiftRightNearestEvenBy_wrapping (v s : UInt32) :
    shiftRightNearestEvenBy .wrapping v s = shiftRightNearestEven v s := rfl

/-! ### The shifts of the rounding to binary16 -/

/-- What a rounding is asked for: a word, and how far it moves down. -/
structure Rounding where
  value : UInt32
  shift : UInt32
deriving DecidableEq, Repr

/-- Rounds and notes what it was asked for. -/
def Rounding.note (value shift : UInt32) : StateM (List Rounding) UInt32 := fun noted =>
  (shiftRightNearestEven value shift, noted ++ [⟨value, shift⟩])

namespace F16

/-- The steps of `F16.ofF32`, with the rounding of a shifted word left open. -/
def ofF32Rounding {m : Type → Type} [Monad m] (round : UInt32 → UInt32 → m UInt32) (x : UInt32) :
    m UInt16 := do
  let f := Format.f32.unpack x
  let signBit : UInt32 := f.sign <<< 15
  if f.exponent = Format.f32.exponentMax then
    if f.mantissa = 0 then return (Format.f16.infinity f.sign).toUInt16
    else
      let payload : UInt32 := f.mantissa >>> 13
      return (signBit ||| 0x7C00 ||| Format.f16.quietBit ||| payload).toUInt16
  else if normalExponent ≤ f.exponent then
    let exponent := f.exponent - rebias
    if Format.f16.exponentMax ≤ exponent then return (Format.f16.infinity f.sign).toUInt16
    else
      let rounded := (exponent <<< 10) + (← round f.mantissa 13)
      if 0x7C00 ≤ rounded then return (Format.f16.infinity f.sign).toUInt16
      else return (signBit ||| rounded).toUInt16
  else if underflowExponent < f.exponent then
    let rounded ← round (f.mantissa ||| 0x800000) (subnormalShift f.exponent)
    return (signBit ||| rounded).toUInt16
  else return signBit.toUInt16

/-- With the rounding of the definition, the steps are the definition. -/
theorem ofF32Rounding_shiftRightNearestEven (x : UInt32) :
    ofF32Rounding (m := Id) shiftRightNearestEven x = ofF32 x := rfl

/-- What the rounding to binary16 asks the rounding shift for, by the guards before it. -/
def roundings (x : UInt32) : List Rounding :=
  let f := Format.f32.unpack x
  if f.exponent = Format.f32.exponentMax then []
  else if normalExponent ≤ f.exponent then
    if Format.f16.exponentMax ≤ f.exponent - rebias then [] else [⟨f.mantissa, 13⟩]
  else if underflowExponent < f.exponent then
    [⟨f.mantissa ||| 0x800000, subnormalShift f.exponent⟩]
  else []

/-- The notes change no result, and what is noted are the roundings. -/
theorem ofF32Rounding_note (x : UInt32) :
    ofF32Rounding Rounding.note x [] = (ofF32 x, roundings x) := by
  simp only [ofF32Rounding, ofF32, roundings]
  by_cases hmax : (Format.f32.unpack x).exponent = Format.f32.exponentMax
  · simp only [if_pos hmax]
    split_ifs <;> rfl
  by_cases hnormal : normalExponent ≤ (Format.f32.unpack x).exponent
  · simp only [if_neg hmax, if_pos hnormal]
    by_cases hover : Format.f16.exponentMax ≤ (Format.f32.unpack x).exponent - rebias
    · simp only [if_pos hover]
      rfl
    · simp only [if_neg hover]
      show (if _ then _ else _ : StateM (List Rounding) UInt16) _ = _
      split_ifs <;> rfl
  · simp only [if_neg hmax, if_neg hnormal]
    split_ifs <;> rfl

theorem shift_of_mem_roundings {x : UInt32} {r : Rounding} (h : r ∈ roundings x) :
    r.shift = 13 ∨ 14 ≤ r.shift ∧ r.shift ≤ 24 := by
  simp only [roundings] at h
  split_ifs at h with hmax hnormal hover hsubnormal
  · cases h
  · cases h
  · rw [List.mem_singleton.mp h]
    exact .inl rfl
  · have hlt : F32.exponent x < 113 :=
      Nat.not_le.mp fun hle => hnormal (UInt32.le_iff_toNat_le.mpr hle)
    have hgt : 101 < F32.exponent x := UInt32.lt_iff_toNat_lt.mp hsubnormal
    have hdistance := toNat_subnormalShift hlt
    rw [List.mem_singleton.mp h]
    right
    rw [UInt32.le_iff_toNat_le, UInt32.le_iff_toNat_le, hdistance]
    exact ⟨show 14 ≤ _ by omega, show _ ≤ 24 by omega⟩
  · cases h

end F16

/-- **The rounding shift is the nearest integer of a quotient by a power of two**, the even one of
two, and loses nothing on the way: its steps do the same in exact arithmetic.  The rounding to
binary16, whose steps are those of the definition with the rounding shift taken out, uses it with
shifts of 13 and of 14 to 24 only. -/
theorem shiftRightNearestEven_nearest :
    (∀ value shift : UInt32,
      shiftRightNearestEvenBy .wrapping value shift = shiftRightNearestEven value shift ∧
      (1 ≤ shift → shift ≤ 31 →
        IsNearestInt ((value.toNat : ℚ) / 2 ^ shift.toNat)
          (shiftRightNearestEven value shift).toNat ∧
        shiftRightNearestEvenBy .exact value shift = some (shiftRightNearestEven value shift))) ∧
    ∀ x : UInt32, F16.ofF32Rounding (m := Id) shiftRightNearestEven x = F16.ofF32 x ∧
      ∃ noted, F16.ofF32Rounding Rounding.note x [] = (F16.ofF32 x, noted) ∧
        ∀ r ∈ noted, r.shift = 13 ∨ 14 ≤ r.shift ∧ r.shift ≤ 24 := by
  refine ⟨fun value shift => ⟨shiftRightNearestEvenBy_wrapping value shift, fun hlo hhi => ?_⟩,
    fun x => ⟨F16.ofF32Rounding_shiftRightNearestEven x, ?_⟩⟩
  · have hlo' : 1 ≤ shift.toNat := UInt32.le_iff_toNat_le.mp hlo
    have hhi' : shift.toNat ≤ 31 := UInt32.le_iff_toNat_le.mp hhi
    exact ⟨isNearestInt_shiftRightNearestEven value hlo' hhi',
      shiftRightNearestEvenBy_exact value hlo' hhi'⟩
  · exact ⟨F16.roundings x, F16.ofF32Rounding_note x, fun r => F16.shift_of_mem_roundings⟩

/-- One and a half, by the greatest shift, goes to the even neighbour; and the least number that
binary16 does not make a zero is rounded by the greatest shift that occurs. -/
theorem shiftRightNearestEven_nearest_cases :
    ((1 : UInt32) ≤ 31 ∧ (31 : UInt32) ≤ 31 ∧ IsNearestInt (3 / 2) 2 ∧
      shiftRightNearestEvenBy .exact 0xC0000000 31 = some 2) ∧
    F16.ofF32Rounding Rounding.note 0x33000001 [] = (1, [⟨0x800001, 24⟩]) := by
  have hlo : (1 : UInt32) ≤ 31 := by decide
  have hhi : (31 : UInt32) ≤ 31 := by decide
  have hvalue : ((0xC0000000 : UInt32).toNat : ℚ) / 2 ^ (31 : UInt32).toNat = 3 / 2 := by
    have hnumerator : (0xC0000000 : UInt32).toNat = 3 * 2 ^ 30 := rfl
    have hshift : (31 : UInt32).toNat = 31 := rfl
    rw [hnumerator, hshift]
    norm_num
  have hresult : shiftRightNearestEven 0xC0000000 31 = 2 := by decide
  obtain ⟨hnearest, hexact⟩ := (shiftRightNearestEven_nearest.1 0xC0000000 31).2 hlo hhi
  rw [hvalue, hresult] at hnearest
  rw [hresult] at hexact
  have hleast : F16.ofF32 0x33000001 = 1 := by decide
  have hnoted : F16.roundings 0x33000001 = [⟨0x800001, 24⟩] := by decide
  refine ⟨⟨hlo, hhi, hnearest, hexact⟩, ?_⟩
  rw [F16.ofF32Rounding_note, hleast, hnoted]

end Lanewise

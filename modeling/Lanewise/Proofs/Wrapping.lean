/-
Lanewise/Proofs/Wrapping.lean

Words that never wrap.

The definitions compute on words of 32 bits, where a sum, a difference or a shift may lose
something without a trace.  Here the arithmetic is taken out of the definition of the
rounding to binary16 as a parameter, an `Arithmetic`.  Filled in with the operations of the
definitions, the steps are the definition (`F16.ofF32By_wrapping`).  Filled in with
operations that give no result where something would be lost, they still give the same
result on every pattern:

    ofF32By exact x = some (ofF32 x)

(`F16.ofF32By_exact`).  The formats' part of this holds in every format whose fields fill
its width.
-/
import Lanewise.Proofs.Narrowing

namespace Lanewise

/-! ### Arithmetic on words -/

/-- The operations on words that may lose something, as actions of `m`. -/
structure Arithmetic (m : Type → Type) where
  add : UInt32 → UInt32 → m UInt32
  sub : UInt32 → UInt32 → m UInt32
  shiftLeft : UInt32 → UInt32 → m UInt32
  shiftRight : UInt32 → UInt32 → m UInt32

namespace Arithmetic

/-- What the definitions compute with: everything is modulo `2 ^ 32`, and the distance of a
shift is modulo 32. -/
def wrapping : Arithmetic Id where
  add a b := a + b
  sub a b := a - b
  shiftLeft a k := a <<< k
  shiftRight a k := a >>> k

/-- No result where something would be lost: a sum past the words, a difference below zero, a
shift by the width of a word or more, a bit shifted out at the top. -/
def exact : Arithmetic Option where
  add a b := if a.toNat + b.toNat < 2 ^ 32 then some (a + b) else none
  sub a b := if b ≤ a then some (a - b) else none
  shiftLeft a k := if k < 32 ∧ a.toNat * 2 ^ k.toNat < 2 ^ 32 then some (a <<< k) else none
  shiftRight a k := if k < 32 then some (a >>> k) else none

theorem exact_add {a b : UInt32} (h : a.toNat + b.toNat < 2 ^ 32) : exact.add a b = some (a + b) :=
  if_pos h

theorem exact_sub {a b : UInt32} (h : b.toNat ≤ a.toNat) : exact.sub a b = some (a - b) :=
  if_pos (UInt32.le_iff_toNat_le.mpr h)

theorem exact_shiftLeft {a k : UInt32} (hk : k.toNat < 32) (h : a.toNat * 2 ^ k.toNat < 2 ^ 32) :
    exact.shiftLeft a k = some (a <<< k) :=
  if_pos ⟨UInt32.lt_iff_toNat_lt.mpr hk, h⟩

theorem exact_shiftRight (a : UInt32) {k : UInt32} (hk : k.toNat < 32) :
    exact.shiftRight a k = some (a >>> k) :=
  if_pos (UInt32.lt_iff_toNat_lt.mpr hk)

end Arithmetic

/-! ### The definitions with the arithmetic left open -/

section

variable {m : Type → Type} [Monad m] (ops : Arithmetic m)

/-- A mask of the `k` low bits. -/
def lowMaskBy (k : UInt32) : m UInt32 := do
  ops.sub (← ops.shiftLeft 1 k) 1

def shiftRightNearestEvenBy (value shift : UInt32) : m UInt32 := do
  let place ← ops.sub shift 1
  let roundBit := (← ops.shiftRight value place) &&& 1
  let sticky : UInt32 := if value &&& (← lowMaskBy ops place) = 0 then 0 else 1
  let kept ← ops.shiftRight value shift
  ops.add kept (roundBit &&& (sticky ||| (kept &&& 1)))

namespace Format

def unpackBy (fmt : Format) (bits : UInt32) : m Fields := do
  let signShift ← ops.sub fmt.width 1
  let sign := (← ops.shiftRight bits signShift) &&& 1
  let exponent := (← ops.shiftRight bits fmt.mantissaBits) &&& (← lowMaskBy ops fmt.exponentBits)
  let mantissa := bits &&& (← lowMaskBy ops fmt.mantissaBits)
  return ⟨sign, exponent, mantissa⟩

def packBy (fmt : Format) (fields : Fields) : m UInt32 := do
  let sign ← ops.shiftLeft (fields.sign &&& 1) (← ops.sub fmt.width 1)
  let exponent ← ops.shiftLeft (fields.exponent &&& (← lowMaskBy ops fmt.exponentBits))
    fmt.mantissaBits
  let mantissa := fields.mantissa &&& (← lowMaskBy ops fmt.mantissaBits)
  return sign ||| exponent ||| mantissa

def infinityBy (fmt : Format) (sign : UInt32) : m UInt32 := do
  fmt.packBy ops ⟨sign, ← lowMaskBy ops fmt.exponentBits, 0⟩

def quietBitBy (fmt : Format) : m UInt32 := do
  ops.shiftLeft 1 (← ops.sub fmt.mantissaBits 1)

end Format

/-- The steps of `F16.ofF32`. -/
def F16.ofF32By (x : UInt32) : m UInt16 := do
  let f ← Format.f32.unpackBy ops x
  let signBit ← ops.shiftLeft f.sign 15
  if f.exponent = (← lowMaskBy ops Format.f32.exponentBits) then
    if f.mantissa = 0 then return (← Format.f16.infinityBy ops f.sign).toUInt16
    else
      let quietBit ← Format.f16.quietBitBy ops
      let payload ← ops.shiftRight f.mantissa 13
      return (signBit ||| 0x7C00 ||| quietBit ||| payload).toUInt16
  else if normalExponent ≤ f.exponent then
    let exponent ← ops.sub f.exponent rebias
    if (← lowMaskBy ops Format.f16.exponentBits) ≤ exponent then
      return (← Format.f16.infinityBy ops f.sign).toUInt16
    else
      let rounded ← ops.add (← ops.shiftLeft exponent 10)
        (← shiftRightNearestEvenBy ops f.mantissa 13)
      if 0x7C00 ≤ rounded then return (← Format.f16.infinityBy ops f.sign).toUInt16
      else return (signBit ||| rounded).toUInt16
  else if underflowExponent < f.exponent then
    let shift ← ops.sub 126 f.exponent
    let rounded ← shiftRightNearestEvenBy ops (f.mantissa ||| 0x800000) shift
    return (signBit ||| rounded).toUInt16
  else return signBit.toUInt16

end

/-- With the arithmetic of the definitions, the steps are the definition. -/
theorem F16.ofF32By_wrapping (x : UInt32) : F16.ofF32By .wrapping x = F16.ofF32 x := rfl

/-! ### Nothing is lost -/

open Arithmetic

theorem lowMaskBy_exact {k : UInt32} (hk : k.toNat < 32) :
    lowMaskBy exact k = some ((1 : UInt32) <<< k - 1) := by
  have hone : (1 : UInt32).toNat = 1 := rfl
  have hpow : 2 ^ k.toNat < 2 ^ 32 := Nat.pow_lt_pow_right Nat.one_lt_two hk
  have hshift : exact.shiftLeft 1 k = some ((1 : UInt32) <<< k) :=
    exact_shiftLeft hk (by rwa [hone, Nat.one_mul])
  have hsub : exact.sub ((1 : UInt32) <<< k) 1 = some ((1 : UInt32) <<< k - 1) := by
    refine exact_sub ?_
    rw [toNat_one_shiftLeft hk]
    exact Nat.one_le_two_pow
  rw [lowMaskBy, hshift]
  exact hsub

theorem shiftRightNearestEvenBy_exact (v : UInt32) {s : UInt32} (hlo : 1 ≤ s.toNat)
    (hhi : s.toNat ≤ 31) : shiftRightNearestEvenBy exact v s = some (shiftRightNearestEven v s) := by
  have hone : (1 : UInt32).toNat = 1 := rfl
  have hplace : exact.sub s 1 = some (s - 1) := exact_sub hlo
  have hplace_lt : (s - 1).toNat < 32 := by
    rw [UInt32.toNat_sub_of_le s 1 (UInt32.le_iff_toNat_le.mpr hlo)]
    omega
  -- the kept part has lost a bit, so there is room for the increment
  have hkept : (v >>> s).toNat ≤ 2 ^ 31 := by
    have hv := v.toNat_lt
    have hhalf : v.toNat / 2 ^ s.toNat ≤ v.toNat / 2 ^ 1 :=
      Nat.div_le_div_left (Nat.pow_le_pow_right Nat.two_pos hlo) (by positivity)
    rw [toNat_shiftRight_of_lt v (by omega)]
    omega
  have hup : ∀ b : UInt32, ((v >>> (s - 1) &&& 1) &&& b).toNat ≤ 1 := by
    intro b
    rw [UInt32.toNat_and, toNat_and_one]
    exact Nat.and_le_left.trans (by omega)
  have hadd : ∀ b : UInt32, exact.add (v >>> s) ((v >>> (s - 1) &&& 1) &&& b)
      = some (v >>> s + ((v >>> (s - 1) &&& 1) &&& b)) := by
    intro b
    have hb := hup b
    exact exact_add (by omega)
  rw [shiftRightNearestEvenBy, hplace]
  simp only [Option.bind_eq_bind, Option.bind_some, exact_shiftRight v hplace_lt,
    lowMaskBy_exact hplace_lt, exact_shiftRight v (Nat.lt_succ_of_le hhi), hadd]
  rfl

namespace Format.Fits

variable {fmt : Format}

theorem unpackBy_exact (h : fmt.Fits) (bits : UInt32) :
    fmt.unpackBy exact bits = some (fmt.unpack bits) := by
  have hsign := h.toNat_signShift
  obtain ⟨-, hwidth, hle⟩ := h
  have hsub : exact.sub fmt.width 1 = some fmt.signShift :=
    exact_sub (by show 1 ≤ fmt.width.toNat; omega)
  have hsign_lt : fmt.signShift.toNat < 32 := by omega
  have hmantissa_lt : fmt.mantissaBits.toNat < 32 := by omega
  have hexponent_lt : fmt.exponentBits.toNat < 32 := by omega
  rw [unpackBy, hsub]
  simp only [Option.bind_eq_bind, Option.bind_some, exact_shiftRight bits hsign_lt,
    exact_shiftRight bits hmantissa_lt, lowMaskBy_exact hexponent_lt, lowMaskBy_exact hmantissa_lt]
  rfl

theorem packBy_exact (h : fmt.Fits) (fields : Fields) :
    fmt.packBy exact fields = some (fmt.pack fields) := by
  have hplaces := h.places_lt
  have hshift := h.toNat_signShift
  have hwidth := h.width_eq
  have hsub : exact.sub fmt.width 1 = some fmt.signShift :=
    exact_sub (by show 1 ≤ fmt.width.toNat; omega)
  have hsign : exact.shiftLeft (fields.sign &&& 1) fmt.signShift
      = some ((fields.sign &&& 1) <<< fmt.signShift) :=
    exact_shiftLeft (by omega) (h.placed_sign_lt _)
  have hexponent : exact.shiftLeft (fields.exponent &&& ((1 : UInt32) <<< fmt.exponentBits - 1))
        fmt.mantissaBits
      = some ((fields.exponent &&& ((1 : UInt32) <<< fmt.exponentBits - 1))
        <<< fmt.mantissaBits) :=
    exact_shiftLeft (by omega) (h.placed_exponent_lt _)
  have hmantissaMask := lowMaskBy_exact (k := fmt.mantissaBits) (by omega)
  have hexponentMask := lowMaskBy_exact (k := fmt.exponentBits) (by omega)
  rw [packBy, hsub]
  simp only [Option.bind_eq_bind, Option.bind_some, hsign, hexponent, hmantissaMask, hexponentMask]
  rfl

theorem infinityBy_exact (h : fmt.Fits) (sign : UInt32) :
    fmt.infinityBy exact sign = some (fmt.infinity sign) := by
  have hwidth := h.width_eq
  have hle := h.width_le
  rw [infinityBy, lowMaskBy_exact (by omega)]
  exact h.packBy_exact _

theorem quietBitBy_exact (h : fmt.Fits) : fmt.quietBitBy exact = some fmt.quietBit := by
  obtain ⟨hpos, hwidth, hle⟩ := h
  have hsub : exact.sub fmt.mantissaBits 1 = some (fmt.mantissaBits - 1) := exact_sub hpos
  have hlt : (fmt.mantissaBits - 1).toNat < 32 := by
    rw [UInt32.toNat_sub_of_le _ 1 (UInt32.le_iff_toNat_le.mpr hpos)]
    omega
  have hshift : exact.shiftLeft 1 (fmt.mantissaBits - 1)
      = some ((1 : UInt32) <<< (fmt.mantissaBits - 1)) := by
    refine exact_shiftLeft hlt ?_
    show 1 * _ < _
    rw [Nat.one_mul]
    exact Nat.pow_lt_pow_right Nat.one_lt_two hlt
  rw [quietBitBy, hsub]
  exact hshift

end Format.Fits

/-- **Rounding to binary16 loses nothing on the way**: no sum, no difference and no shift
leaves the words. -/
theorem F16.ofF32By_exact (x : UInt32) : F16.ofF32By exact x = some (F16.ofF32 x) := by
  have hsign := F32.sign_le_one x
  have hexponent := Format.f32_fits.exponent_lt x
  have hsignBit : exact.shiftLeft (Format.f32.unpack x).sign 15
      = some ((Format.f32.unpack x).sign <<< 15) :=
    exact_shiftLeft (by decide) (by show _ * 2 ^ 15 < _; omega)
  have hmax32 : lowMaskBy exact Format.f32.exponentBits = some Format.f32.exponentMax :=
    lowMaskBy_exact (by decide)
  have hmax16 : lowMaskBy exact Format.f16.exponentBits = some Format.f16.exponentMax :=
    lowMaskBy_exact (by decide)
  rw [ofF32By, Format.f32_fits.unpackBy_exact]
  simp only [Option.bind_eq_bind, Option.bind_some, Option.pure_def, hsignBit, hmax32, hmax16,
    Format.f16_fits.infinityBy_exact, Format.f16_fits.quietBitBy_exact,
    exact_shiftRight _ (by decide : (13 : UInt32).toNat < 32), ofF32]
  -- from here on, the guards of the definition are the bounds of its operations
  by_cases hmax : (Format.f32.unpack x).exponent = Format.f32.exponentMax
  · simp only [if_pos hmax]
    split_ifs <;> rfl
  by_cases hnormal : normalExponent ≤ (Format.f32.unpack x).exponent
  · have hge : 113 ≤ F32.exponent x := UInt32.le_iff_toNat_le.mp hnormal
    have hrebias : exact.sub (Format.f32.unpack x).exponent rebias
        = some ((Format.f32.unpack x).exponent - rebias) :=
      exact_sub (Nat.le_of_succ_le hge)
    simp only [if_neg hmax, if_pos hnormal, hrebias, Option.bind_some]
    by_cases hover : Format.f16.exponentMax ≤ (Format.f32.unpack x).exponent - rebias
    · simp only [if_pos hover]
    · have hless := mt (exponentMax_le_sub_rebias_iff hge).mpr hover
      have hplace : exact.shiftLeft ((Format.f32.unpack x).exponent - rebias) 10
          = some (((Format.f32.unpack x).exponent - rebias) <<< 10) := by
        refine exact_shiftLeft (by decide) ?_
        rw [toNat_exponent_sub_rebias hge]
        show _ * 2 ^ 10 < _
        omega
      have hround := shiftRightNearestEvenBy_exact (Format.f32.unpack x).mantissa
        (by decide : 1 ≤ (13 : UInt32).toNat) (by decide)
      have hadd : exact.add (((Format.f32.unpack x).exponent - rebias) <<< 10)
            (shiftRightNearestEven (Format.f32.unpack x).mantissa 13)
          = some (((Format.f32.unpack x).exponent - rebias) <<< 10
            + shiftRightNearestEven (Format.f32.unpack x).mantissa 13) := by
        have hcount := divNearestEven_mantissa_le x
        refine exact_add ?_
        rw [toNat_rounded_mantissa, UInt32.toNat_shiftLeft, Nat.shiftLeft_eq,
          toNat_exponent_sub_rebias hge]
        show _ * 2 ^ 10 % 2 ^ 32 + _ < _
        omega
      simp only [if_neg hover, hplace, hround, hadd, Option.bind_some]
      split_ifs <;> rfl
  · have hlt : F32.exponent x < 113 := 
      Nat.not_le.mp fun hle => hnormal (UInt32.le_iff_toNat_le.mpr hle)
    simp only [if_neg hmax, if_neg hnormal]
    by_cases hsubnormal : underflowExponent < (Format.f32.unpack x).exponent
    · have hgt : 101 < F32.exponent x := UInt32.lt_iff_toNat_lt.mp hsubnormal
      have hdistance := toNat_subnormalShift hlt
      have hshift : exact.sub 126 (Format.f32.unpack x).exponent
          = some (subnormalShift (Format.f32.unpack x).exponent) :=
        exact_sub (hlt.le.trans (by decide))
      have hround := shiftRightNearestEvenBy_exact ((Format.f32.unpack x).mantissa ||| 0x800000)
        (s := subnormalShift (Format.f32.unpack x).exponent) (by omega) (by omega)
      simp only [if_pos hsubnormal, hshift, hround, Option.bind_some]
    · simp only [if_neg hsubnormal]

end Lanewise

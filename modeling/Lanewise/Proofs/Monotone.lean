/-
Lanewise/Proofs/Monotone.lean

Narrowing keeps the order of values and commutes with negation.

Rounding never turns the order of two numbers round (`Counted.rounded_le`), and it does not
matter for which counts a conversion divides.  So narrowing keeps the order in every format, for
every conversion that rounds magnitudes and keeps signs (`Rounds`).  From the magnitudes the
order of values follows by `signed_le_signed`, and two patterns that differ in the sign alone
are rounded to two that do.

Bytes go the same way through the nearest integer (`Narrowing.keeps_order` has all three).
-/
import Lanewise.Proofs.Classes
import Lanewise.Proofs.Order

namespace Lanewise

namespace Format

variable {fmt : Format}

/-! ### Conversions that round -/

/-- A conversion from single precision that keeps classes and signs and rounds magnitudes. -/
structure Rounds (fmt : Format) (narrow : UInt32 → UInt16) : Prop where
  narrowed : ∀ x, fmt.NarrowedTo x (narrow x).toUInt32
  counted : ∀ x, f32.IsFinite x → ∃ e n d, fmt.Counted |F32.value x| e n d ∧
    fmt.magnitude (narrow x).toUInt32 = min fmt.top (fmt.rounded e n d)

namespace Rounds

variable {narrow : UInt32 → UInt16} (r : fmt.Rounds narrow) (hfits : fmt.Fits) {x y : UInt32}

include r hfits

theorem magnitude_le_top (hnan : f32.isNaN x = false) :
    fmt.magnitude (narrow x).toUInt32 ≤ fmt.top := by
  have hkept := (r.narrowed x).isNaN_eq.trans hnan
  exact Nat.not_lt.mp (mt (hfits.isNaN_iff _).mpr (ne_true_of_eq_false hkept))

/-- Of numbers, the greater magnitude becomes no smaller one. -/
theorem magnitude_le (hx : f32.isNaN x = false) (hy : f32.isNaN y = false)
    (h : f32.magnitude x ≤ f32.magnitude y) :
    fmt.magnitude (narrow x).toUInt32 ≤ fmt.magnitude (narrow y).toUInt32 := by
  rcases f32.class_cases y with hfinite | hinfinite | hnan
  · have hfinite' : f32.IsFinite x :=
      (f32_fits.isFinite_iff x).mpr (h.trans_lt ((f32_fits.isFinite_iff y).mp hfinite))
    obtain ⟨e, n, d, c, heq⟩ := r.counted x hfinite'
    obtain ⟨e', n', d', c', heq'⟩ := r.counted y hfinite
    have hvalue : |F32.value x| ≤ |F32.value y| := by
      rw [F32.value, F32.value, f32_fits.abs_value, f32_fits.abs_value]
      exact f32.absolute_strictMono.monotone h
    rw [heq, heq']
    exact min_le_min_left _ (c.rounded_le c' hvalue)
  · rw [(hfits.isInfinite_iff _).mp ((r.narrowed y).isInfinite hinfinite)]
    exact r.magnitude_le_top hfits hx
  · rw [hy] at hnan
    cases hnan

omit hfits in
theorem magnitude_eq_zero (h : f32.magnitude x = 0) :
    fmt.magnitude (narrow x).toUInt32 = 0 := by
  have hfinite : f32.IsFinite x := (f32_fits.isFinite_iff x).mpr (h.trans_lt (by decide))
  obtain ⟨e, n, d, c, heq⟩ := r.counted x hfinite
  have hzero : |F32.value x| = 0 := by rw [F32.value, f32_fits.abs_value, h, absolute_zero]
  have hcounted : fmt.Counted 0 1 0 1 :=
    ⟨le_rfl, Nat.one_pos, .inr rfl, by positivity, by norm_num⟩
  have hnone : fmt.rounded 1 0 1 = 0 := by
    rw [rounded, Nat.sub_self, Nat.zero_mul, Nat.zero_add, divNearestEven_eq_zero (by norm_num)]
  have hrounded := c.rounded_le hcounted hzero.le
  omega

/-- **A rounding conversion keeps the order of values.** -/
theorem atMost (htop : 0 < fmt.top) (h : f32.AtMost x y) :
    fmt.AtMost (narrow x).toUInt32 (narrow y).toUInt32 := by
  obtain ⟨hx, hy, hplace⟩ := (f32_fits.atMost_iff (by decide)).mp h
  refine (hfits.atMost_iff htop).mpr
    ⟨(r.narrowed x).isNaN_eq.trans hx, (r.narrowed y).isNaN_eq.trans hy, ?_⟩
  simp only [place, (r.narrowed x).sign_eq, (r.narrowed y).sign_eq]
  exact signed_le_signed (r.magnitude_le hfits hx hy) (r.magnitude_le hfits hy hx)
    r.magnitude_eq_zero r.magnitude_eq_zero hplace

/-- The magnitude of the result is that of the argument, rounded. -/
theorem magnitude_congr (h : f32.magnitude x = f32.magnitude y) :
    fmt.magnitude (narrow x).toUInt32 = fmt.magnitude (narrow y).toUInt32 := by
  have hnan : f32.isNaN x = f32.isNaN y := by
    rw [Bool.eq_iff_iff, f32_fits.isNaN_iff, f32_fits.isNaN_iff, h]
  cases hy : f32.isNaN y with
  | false =>
    rw [hy] at hnan
    exact le_antisymm (r.magnitude_le hfits hnan hy h.le) (r.magnitude_le hfits hy hnan h.ge)
  | true =>
    rw [hy] at hnan
    have hmantissa : (f32.unpack x).mantissa = (f32.unpack y).mantissa := by
      rw [← UInt32.toNat_inj, ← f32_fits.magnitude_mod_mantissa, h,
        f32_fits.magnitude_mod_mantissa]
    have hexponent (z : UInt32) (hz : f32.isNaN z = true) :
        (fmt.unpack (narrow z).toUInt32).exponent = fmt.exponentMax :=
      (hfits.exponent_eq_max_iff _).mpr
        ((hfits.isNaN_iff _).mp ((r.narrowed z).isNaN_eq.trans hz)).le
    rw [hfits.magnitude_eq, hfits.magnitude_eq, hexponent x hnan, hexponent y hy,
      (r.narrowed x).mantissa_eq hnan, (r.narrowed y).mantissa_eq hy, narrowedPayload,
      narrowedPayload, hmantissa]

end Rounds

end Format

/-! ### Negation -/

/-- The number of the other sign.  NaNs have signs as well. -/
def F32.negate (x : UInt32) : UInt32 := x ^^^ 0x80000000

theorem F32.toNat_negate (x : UInt32) :
    (negate x).toNat % 2 ^ 31 = x.toNat % 2 ^ 31 ∧
      (2 ^ 31 ≤ (negate x).toNat ↔ ¬ 2 ^ 31 ≤ x.toNat) := by
  have hx := x.toNat_lt
  have hxor : (negate x).toNat = x.toNat ^^^ 2 ^ 31 := UInt32.toNat_xor _ _
  obtain ⟨hhigh, hlow⟩ := xor_two_pow_digits (n := x.toNat) (k := 31) (by omega)
  rw [← hxor] at hhigh hlow
  exact ⟨hlow, by omega⟩

theorem F32.magnitude_negate (x : UInt32) :
    Format.f32.magnitude (negate x) = Format.f32.magnitude x := (toNat_negate x).1

/-- Two patterns of 16 bits with one magnitude and different signs differ in the topmost bit. -/
theorem eq_xor_of_magnitude_eq {fmt : Format} (hfits : fmt.Fits) (hwidth : fmt.width.toNat = 16)
    {h k : UInt16} (hmagnitude : fmt.magnitude k.toUInt32 = fmt.magnitude h.toUInt32)
    (hsign : (fmt.unpack k.toUInt32).sign = 1 ↔ ¬ (fmt.unpack h.toUInt32).sign = 1) :
    k = h ^^^ 0x8000 := by
  have hh := h.toNat_lt
  have hk := k.toNat_lt
  have hplaces := hfits.places_eq hwidth
  have htop (g : UInt16) : (fmt.unpack g.toUInt32).sign = 1 ↔ g.toNat / 2 ^ 15 % 2 = 1 := by
    rw [← UInt32.toNat_inj, hfits.toNat_sign, hplaces, UInt16.toNat_toUInt32]
    exact Iff.rfl
  rw [Format.magnitude, Format.magnitude, hplaces, UInt16.toNat_toUInt32,
    UInt16.toNat_toUInt32] at hmagnitude
  rw [htop, htop] at hsign
  have hxor : (h ^^^ 0x8000).toNat = h.toNat ^^^ 2 ^ 15 := UInt16.toNat_xor _ _
  obtain ⟨hhigh, hlow⟩ := xor_two_pow_digits (n := h.toNat) (k := 15) (by omega)
  rw [← hxor] at hhigh hlow
  rw [← UInt16.toNat_inj]
  omega

/-- **A rounding conversion turns the sign round where the sign is turned round**, and changes
nothing else. -/
theorem Format.Rounds.negate {fmt : Format} {narrow : UInt32 → UInt16} (r : fmt.Rounds narrow)
    (hfits : fmt.Fits) (hwidth : fmt.width.toNat = 16) (x : UInt32) :
    narrow (F32.negate x) = narrow x ^^^ 0x8000 := by
  refine eq_xor_of_magnitude_eq hfits hwidth
    (r.magnitude_congr hfits (F32.magnitude_negate x)) ?_
  rw [(r.narrowed _).sign_eq, (r.narrowed x).sign_eq, F32.sign_eq_one_iff, F32.sign_eq_one_iff]
  exact (F32.toNat_negate x).2

/-! ### The conversions -/

namespace F16

theorem rounds : Format.f16.Rounds ofF32 where
  narrowed := narrowedTo_ofF32
  counted := by
    intro x hfinite
    have hwidth : Format.f16.width.toNat = 16 := rfl
    have htop : Format.f16.top < 2 ^ 15 := by decide
    rcases Nat.lt_or_ge (F32.exponent x) 113 with hlo | hlo
    · exact ⟨_, _, _, counted_of_small hlo, (Format.fields_of_toNat Format.f16_fits hwidth
        (by omega) (toNat_ofF32_eq_rounded_of_small hlo)).2⟩
    · exact ⟨_, _, _, counted_of_normal hlo, (Format.fields_of_toNat Format.f16_fits hwidth
        (by omega) (toNat_ofF32_eq_rounded_of_normal hlo
          (F32.exponent_lt_of_isFinite hfinite))).2⟩

end F16

namespace Bf16

theorem rounds : Format.bf16.Rounds ofF32 where
  narrowed := narrowedTo_ofF32
  counted := by
    intro x hfinite
    have hwidth : Format.bf16.width.toNat = 16 := rfl
    have htop : Format.bf16.top < 2 ^ 15 := by decide
    exact ⟨_, _, _, counted x, (Format.fields_of_toNat Format.bf16_fits hwidth (by omega)
      (toNat_ofF32_eq_rounded hfinite.1)).2⟩

end Bf16

namespace Byte

variable {x y : UInt32}

/-- The nearest integer of a number, its sign taken from the pattern. -/
theorem toInt_roundEven_eq_signed (x : UInt32) : F32.toInt (F32.roundEven x)
    = signed ((Format.f32.unpack x).sign = 1) (F32.nearestMagnitude x) := by
  simp only [F32.toInt_roundEven, signed, F32.sign_eq_one_iff]
  split_ifs <;> omega

/-- The nearest integers are in the order of the values. -/
theorem toInt_roundEven_le (h : Format.f32.AtMost x y) :
    F32.toInt (F32.roundEven x) ≤ F32.toInt (F32.roundEven y) := by
  obtain ⟨-, -, hplace⟩ := (Format.f32_fits.atMost_iff (by decide)).mp h
  have hzero {z : UInt32} (hz : Format.f32.magnitude z = 0) : F32.nearestMagnitude z = 0 := by
    have hlow : z.toNat % 2 ^ 31 = 0 := hz
    refine F32.nearestMagnitude_of_lt ?_
    rw [F32.exponent_eq]
    omega
  rw [toInt_roundEven_eq_signed, toInt_roundEven_eq_signed]
  exact signed_le_signed F32.nearestMagnitude_mono F32.nearestMagnitude_mono hzero hzero hplace

theorem ofF32_saturating_le (h : Format.f32.AtMost x y) :
    ofF32 .saturating x ≤ ofF32 .saturating y := by
  have hle := toInt_roundEven_le h
  have hx := toNat_ofF32_saturating h.left
  have hy := toNat_ofF32_saturating h.right
  rw [UInt8.le_iff_toNat_le]
  omega

theorem nearestMagnitude_negate (x : UInt32) :
    F32.nearestMagnitude (F32.negate x) = F32.nearestMagnitude x := by
  have hsame := (F32.toNat_negate x).1
  exact le_antisymm (F32.nearestMagnitude_mono hsame.le) (F32.nearestMagnitude_mono hsame.ge)

theorem toNat_ofF32_narrowing_negate (x : UInt32) :
    (ofF32 .narrowing (F32.negate x)).toNat = (256 - (ofF32 .narrowing x).toNat) % 256 := by
  have hnan : F32.isNaN (F32.negate x) = F32.isNaN x := by
    rw [Bool.eq_iff_iff]
    exact (Format.f32_fits.isNaN_iff _).trans
      (F32.magnitude_negate x ▸ (Format.f32_fits.isNaN_iff x).symm)
  cases hx : F32.isNaN x with
  | true =>
    rw [ofF32_of_isNaN _ hx, ofF32_of_isNaN _ (hnan.trans hx)]
    rfl
  | false =>
    have hresult := toNat_ofF32_narrowing hx
    have hresult' := toNat_ofF32_narrowing (hnan.trans hx)
    have hsign := (F32.toNat_negate x).2
    rw [F32.toInt_roundEven] at hresult hresult'
    rw [nearestMagnitude_negate] at hresult'
    split_ifs at hresult hresult' <;> omega

end Byte

/-! ### Main statement -/

namespace Narrowing

/-- **Narrowing keeps the order of values and commutes with negation.**  If `x` is at most `y`,
so are the patterns of half precision and of the upper half that they become, infinities
included, and the bytes to which they saturate.  If the sign of a pattern is turned round, so
is that of the narrowed pattern, and nothing else; the byte left of a number is the negative,
modulo 256, of the one left of its negative. -/
theorem keeps_order (x y : UInt32) :
    (Format.f32.AtMost x y →
      Format.f16.AtMost (F16.ofF32 x).toUInt32 (F16.ofF32 y).toUInt32 ∧
      Format.bf16.AtMost (Bf16.ofF32 x).toUInt32 (Bf16.ofF32 y).toUInt32 ∧
      Byte.ofF32 .saturating x ≤ Byte.ofF32 .saturating y) ∧
    F16.ofF32 (F32.negate x) = F16.ofF32 x ^^^ 0x8000 ∧
    Bf16.ofF32 (F32.negate x) = Bf16.ofF32 x ^^^ 0x8000 ∧
    (Byte.ofF32 .narrowing (F32.negate x)).toNat
      = (256 - (Byte.ofF32 .narrowing x).toNat) % 256 := by
  refine ⟨fun h => ⟨?_, ?_, Byte.ofF32_saturating_le h⟩, ?_, ?_,
    Byte.toNat_ofF32_narrowing_negate x⟩
  · exact F16.rounds.atMost Format.f16_fits (by decide) h
  · exact Bf16.rounds.atMost Format.bf16_fits (by decide) h
  · exact F16.rounds.negate Format.f16_fits rfl x
  · exact Bf16.rounds.negate Format.bf16_fits rfl x

/-- Just below 65520 and at it: the greatest number of half precision and its infinity. -/
theorem keeps_order_at_overflow :
    Format.f32.AtMost 0x477FEFFF 0x477FF000 ∧ Format.f16.AtMost 0x7BFF 0x7C00 ∧
      F16.ofF32 (F32.negate 0x477FF000) = 0xFC00 := by
  have horder : Format.f32.AtMost 0x477FEFFF 0x477FF000 :=
    (Format.f32_fits.atMost_iff (by decide)).mpr ⟨by decide, by decide, by decide⟩
  have hbelow : F16.ofF32 0x477FEFFF = 0x7BFF := by decide
  have habove : F16.ofF32 0x477FF000 = 0x7C00 := by decide
  have hhalf := ((keeps_order 0x477FEFFF 0x477FF000).1 horder).1
  have hnegative := (keeps_order 0x477FF000 0x477FF000).2.1
  rw [hbelow, habove] at hhalf
  rw [habove] at hnegative
  exact ⟨horder, hhalf, hnegative⟩

end Narrowing

end Lanewise

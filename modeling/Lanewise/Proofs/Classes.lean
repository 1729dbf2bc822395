/-
Lanewise/Proofs/Classes.lean

Conversions keep the classes of patterns.

A narrowed pattern is a NaN exactly if the wider one is, and an infinity where the wider one
is; a widened pattern is of the class that the narrower one has, and of the same value if
that is finite.  Of a NaN the sign is kept and the mantissa is moved to its new place; all
conversions but one set the quiet bit, and widening the upper half leaves it as it is.

`Format.NarrowedTo` and `Format.WidenedFrom` say this of two patterns.  There is one lemma
for each class (`NarrowedTo.of_isFinite` and so on), and all that a conversion has to show is
the number of the converted pattern: a sign, and a magnitude that is below that of the
infinities, equal to it, or past it by the mantissa of a NaN.

Since every dispatcher converts element by element, no way of converting a buffer loses a
NaN, makes one, or leaves one signalling (`Dispatcher.classes_preserved`).
-/
import Lanewise.Proofs.Chunks
import Lanewise.Proofs.CorrectWidening
import Lanewise.Proofs.RoundTrip

namespace Lanewise

namespace Format

variable {fmt : Format} {x : UInt32} {h : UInt16} {m : Nat}

/-! ### Quiet patterns -/

/-- The topmost mantissa bit is set. -/
def isQuiet (fmt : Format) (bits : UInt32) : Bool := bits &&& fmt.quietBit != 0

theorem Fits.isQuiet_iff (h : fmt.Fits) (bits : UInt32) :
    fmt.isQuiet bits = true
      ↔ 2 ^ (fmt.mantissaBits.toNat - 1) ≤ (fmt.unpack bits).mantissa.toNat := by
  obtain ⟨k, hk⟩ : ∃ k, fmt.mantissaBits.toNat = k + 1 :=
    ⟨_, (Nat.sub_add_cancel h.mantissa_pos).symm⟩
  have hlow : bits.toNat % 2 ^ k < 2 ^ k := Nat.mod_lt _ (by positivity)
  have hand : (bits &&& fmt.quietBit).toNat = 2 ^ k * (bits.toNat / 2 ^ k % 2) := by
    rw [UInt32.toNat_and, h.toNat_quietBit, hk, Nat.add_sub_cancel, Nat.and_two_pow,
      Nat.toNat_testBit, Nat.mul_comm]
  rw [isQuiet, bne_iff_ne, ne_eq, ← UInt32.toNat_inj, hand, h.toNat_mantissa, hk,
    Nat.add_sub_cancel, pow_succ, Nat.mod_mul]
  show ¬ _ = 0 ↔ _
  -- what lies below the topmost bit is less than the bit itself
  rcases Nat.mod_two_eq_zero_or_one (bits.toNat / 2 ^ k) with hbit | hbit
  · rw [hbit]
    omega
  · rw [hbit]
    omega

/-! ### Narrowed patterns -/

/-- The mantissa of a NaN, moved down to its place in a narrower format and made quiet. -/
def narrowedPayload (fmt : Format) (x : UInt32) : UInt32 :=
  (f32.unpack x).mantissa >>> (f32.mantissaBits - fmt.mantissaBits) ||| fmt.quietBit

/-- `y` is in the class of the single-precision pattern `x`, though a finite number may have
become an infinity.  Of a NaN the upper bits of the mantissa are kept, but for the quiet bit,
which is set. -/
structure NarrowedTo (fmt : Format) (x y : UInt32) : Prop where
  sign_eq : (fmt.unpack y).sign = (f32.unpack x).sign
  isNaN_eq : fmt.isNaN y = f32.isNaN x
  isInfinite : f32.isInfinite x = true → fmt.isInfinite y = true
  isQuiet : f32.isNaN x = true → fmt.isQuiet y = true
  mantissa_eq : f32.isNaN x = true → (fmt.unpack y).mantissa = fmt.narrowedPayload x

section

variable (hfits : fmt.Fits) (hwidth : fmt.width.toNat = 16)

include hfits hwidth

theorem mantissaBits_le : fmt.mantissaBits.toNat ≤ 15 := by
  have hplaces := hfits.places_eq hwidth
  omega

/-- How far a mantissa moves between the formats. -/
theorem toNat_mantissaBits_sub :
    (f32.mantissaBits - fmt.mantissaBits).toNat = 23 - fmt.mantissaBits.toNat := by
  have hbits := mantissaBits_le hfits hwidth
  exact UInt32.toNat_sub_of_le _ _ (UInt32.le_iff_toNat_le.mpr (hbits.trans (by decide)))

theorem mantissa_places :
    2 ^ fmt.mantissaBits.toNat * 2 ^ (23 - fmt.mantissaBits.toNat) = 2 ^ 23 := by
  have hbits := mantissaBits_le hfits hwidth
  rw [← pow_add, Nat.add_sub_cancel' (by omega)]

theorem toNat_narrowedPayload (x : UInt32) :
    (fmt.narrowedPayload x).toNat = x.toNat % 2 ^ 23 / 2 ^ (23 - fmt.mantissaBits.toNat)
      ||| 2 ^ (fmt.mantissaBits.toNat - 1) := by
  have hshift := toNat_mantissaBits_sub hfits hwidth
  rw [narrowedPayload, UInt32.toNat_or, toNat_shiftRight_of_lt _ (by omega), hshift,
    F32.toNat_mantissa, hfits.toNat_quietBit]

theorem narrowedPayload_lt (x : UInt32) :
    (fmt.narrowedPayload x).toNat < 2 ^ fmt.mantissaBits.toNat := by
  have hpos := hfits.mantissa_pos
  rw [toNat_narrowedPayload hfits hwidth]
  refine Nat.or_lt_two_pow (Nat.div_lt_of_lt_mul ?_) (Nat.pow_lt_pow_right (by norm_num) (by omega))
  rw [Nat.mul_comm, mantissa_places hfits hwidth]
  exact Nat.mod_lt _ (by norm_num)

theorem NarrowedTo.of_isFinite (hx : f32.IsFinite x) (hm : m ≤ fmt.top)
    (hh : h.toNat = x.toNat / 2 ^ 31 * 2 ^ 15 + m) : fmt.NarrowedTo x h.toUInt32 := by
  have htop := hfits.top_lt_of_width hwidth
  obtain ⟨hsign, hmagnitude⟩ := fields_of_toNat hfits hwidth (by omega) hh
  obtain ⟨hnan, hinfinite⟩ := hx
  have hnumber : fmt.isNaN h.toUInt32 = false := hfits.not_isNaN (hmagnitude.trans_le hm)
  exact
    { sign_eq := hsign
      isNaN_eq := hnumber.trans hnan.symm
      isInfinite := by simp [hinfinite]
      isQuiet := by simp [hnan]
      mantissa_eq := by simp [hnan] }

theorem NarrowedTo.of_isInfinite (hx : f32.isInfinite x = true)
    (hh : h.toNat = x.toNat / 2 ^ 31 * 2 ^ 15 + fmt.top) : fmt.NarrowedTo x h.toUInt32 := by
  obtain ⟨hinfinite, hsign⟩ := isInfinite_of_toNat hfits hwidth hh
  have hnan := f32_fits.not_isNaN_of_isInfinite hx
  exact
    { sign_eq := hsign
      isNaN_eq := (hfits.not_isNaN_of_isInfinite hinfinite).trans hnan.symm
      isInfinite := fun _ => hinfinite
      isQuiet := by simp [hnan]
      mantissa_eq := by simp [hnan] }

theorem NarrowedTo.of_isNaN (hx : f32.isNaN x = true)
    (hh : h.toNat = x.toNat / 2 ^ 31 * 2 ^ 15 + (fmt.top + (fmt.narrowedPayload x).toNat)) :
    fmt.NarrowedTo x h.toUInt32 := by
  have hlt := narrowedPayload_lt hfits hwidth x
  have hquiet : 2 ^ (fmt.mantissaBits.toNat - 1) ≤ (fmt.narrowedPayload x).toNat := by
    rw [toNat_narrowedPayload hfits hwidth]
    exact Nat.right_le_or
  -- no mantissa carries into the sign
  have hroom := fmt.top_add
  rw [hfits.places_eq hwidth] at hroom
  obtain ⟨hsign, hmagnitude⟩ := fields_of_toNat hfits hwidth (by omega) hh
  obtain ⟨hnan, hmantissa⟩ :=
    hfits.isNaN_of_magnitude (lt_of_lt_of_le (by positivity) hquiet) hlt hmagnitude
  exact
    { sign_eq := hsign
      isNaN_eq := hnan.trans hx.symm
      isInfinite := by simp [f32_fits.not_isInfinite_of_isNaN hx]
      isQuiet := fun _ => by rwa [hfits.isQuiet_iff, hmantissa]
      mantissa_eq := fun _ => UInt32.toNat_inj.mp hmantissa }

end

/-! ### Widened patterns -/

/-- The mantissa of a NaN, moved up to its place in single precision. -/
def widenedPayload (fmt : Format) (quieting : Bool) (y : UInt32) : UInt32 :=
  (fmt.unpack y).mantissa <<< (f32.mantissaBits - fmt.mantissaBits)
    ||| if quieting then f32.quietBit else 0

/-- The single-precision pattern `x` is in the class of `y`, and has its value if that is finite.
Of a NaN the mantissa is kept, but for the quiet bit if the conversion is `quieting`. -/
structure WidenedFrom (fmt : Format) (quieting : Bool) (y x : UInt32) : Prop where
  sign_eq : (f32.unpack x).sign = (fmt.unpack y).sign
  isNaN_eq : f32.isNaN x = fmt.isNaN y
  isInfinite_eq : f32.isInfinite x = fmt.isInfinite y
  value_eq : fmt.IsFinite y → f32.IsFinite x ∧ F32.value x = fmt.value y
  isQuiet_eq : fmt.isNaN y = true → f32.isQuiet x = (quieting || fmt.isQuiet y)
  mantissa_eq : fmt.isNaN y = true → (f32.unpack x).mantissa = fmt.widenedPayload quieting y

section

variable (hfits : fmt.Fits) (hwidth : fmt.width.toNat = 16) {quieting : Bool}

include hfits hwidth

/-- The sign of a pattern of 16 bits, and a single-precision magnitude below it. -/
theorem fields_of_widened (hm : m < 2 ^ 31) (hx : x.toNat = h.toNat / 2 ^ 15 * 2 ^ 31 + m) :
    (f32.unpack x).sign = (fmt.unpack h.toUInt32).sign ∧ f32.magnitude x = m := by
  have hh := h.toNat_lt
  have hsign := hfits.toNat_sign h.toUInt32
  rw [hfits.places_eq hwidth, UInt16.toNat_toUInt32] at hsign
  constructor
  · rw [← UInt32.toNat_inj, F32.toNat_sign, hsign]
    omega
  · show x.toNat % 2 ^ 31 = m
    omega

theorem WidenedFrom.of_isFinite (hh : fmt.IsFinite h.toUInt32)
    (hx : x.toNat = h.toNat / 2 ^ 15 * 2 ^ 31 + m) (hm : m < f32.top)
    (hvalue : f32.absolute m = fmt.absolute (fmt.magnitude h.toUInt32)) :
    fmt.WidenedFrom quieting h.toUInt32 x := by
  have htop := f32.top_lt
  obtain ⟨hsign, hmagnitude⟩ := fields_of_widened hfits hwidth (hm.trans htop) hx
  have hfinite : f32.IsFinite x := (f32_fits.isFinite_iff x).mpr (hmagnitude.trans_lt hm)
  have hsame : F32.value x = fmt.value h.toUInt32 := by
    rw [hfits.value_eq, ← hvalue, ← hmagnitude, ← signum_congr hsign]
    exact f32_fits.value_eq x
  exact
    { sign_eq := hsign
      isNaN_eq := hfinite.1.trans hh.1.symm
      isInfinite_eq := hfinite.2.trans hh.2.symm
      value_eq := fun _ => ⟨hfinite, hsame⟩
      isQuiet_eq := by simp [hh.1]
      mantissa_eq := by simp [hh.1] }

theorem WidenedFrom.of_isInfinite (hh : fmt.isInfinite h.toUInt32 = true)
    (hx : x.toNat = h.toNat / 2 ^ 15 * 2 ^ 31 + f32.top) :
    fmt.WidenedFrom quieting h.toUInt32 x := by
  obtain ⟨hsign, hmagnitude⟩ := fields_of_widened hfits hwidth f32.top_lt hx
  have hinfinite := (f32_fits.isInfinite_iff x).mpr hmagnitude
  have hnan := hfits.not_isNaN_of_isInfinite hh
  exact
    { sign_eq := hsign
      isNaN_eq := (f32_fits.not_isNaN_of_isInfinite hinfinite).trans hnan.symm
      isInfinite_eq := hinfinite.trans hh.symm
      value_eq := fun hfinite => absurd hh (ne_true_of_eq_false hfinite.2)
      isQuiet_eq := by simp [hnan]
      mantissa_eq := by simp [hnan] }

theorem mantissa_mul_lt (y : UInt32) :
    (fmt.unpack y).mantissa.toNat * 2 ^ (23 - fmt.mantissaBits.toNat) < 2 ^ 23 := by
  rw [← mantissa_places hfits hwidth]
  exact Nat.mul_lt_mul_of_pos_right (hfits.mantissa_lt y) (by positivity)

theorem toNat_widenedPayload (quieting : Bool) (y : UInt32) :
    (fmt.widenedPayload quieting y).toNat
      = (fmt.unpack y).mantissa.toNat * 2 ^ (23 - fmt.mantissaBits.toNat)
        ||| if quieting then 2 ^ 22 else 0 := by
  have hshift := toNat_mantissaBits_sub hfits hwidth
  have hless : (23 - fmt.mantissaBits.toNat) % 32 = 23 - fmt.mantissaBits.toNat :=
    Nat.mod_eq_of_lt (by omega)
  have hplace := mantissa_mul_lt hfits hwidth y
  have hquiet : (if quieting then f32.quietBit else 0).toNat = if quieting then 2 ^ 22 else 0 := by
    cases quieting <;> rfl
  rw [widenedPayload, UInt32.toNat_or, UInt32.toNat_shiftLeft, hshift, hless, Nat.shiftLeft_eq,
    Nat.mod_eq_of_lt (by omega), hquiet]

theorem widenedPayload_lt (quieting : Bool) (y : UInt32) :
    (fmt.widenedPayload quieting y).toNat < 2 ^ 23 := by
  rw [toNat_widenedPayload hfits hwidth]
  exact Nat.or_lt_two_pow (mantissa_mul_lt hfits hwidth y) (by split_ifs <;> norm_num)

/-- A mantissa that is moved up has its topmost bit where the quiet bit is. -/
theorem le_widenedPayload_iff (quieting : Bool) (y : UInt32) :
    2 ^ 22 ≤ (fmt.widenedPayload quieting y).toNat ↔ (quieting || fmt.isQuiet y) = true := by
  have hbits := mantissaBits_le hfits hwidth
  have hpos := hfits.mantissa_pos
  rw [toNat_widenedPayload hfits hwidth]
  cases quieting with
  | true => exact iff_of_true Nat.right_le_or rfl
  | false =>
    have hplace :
        2 ^ (fmt.mantissaBits.toNat - 1) * 2 ^ (23 - fmt.mantissaBits.toNat) = 2 ^ 22 := by
      rw [← pow_add]
      congr 1
      omega
    rw [Bool.false_or, hfits.isQuiet_iff, if_neg Bool.false_ne_true, Nat.or_zero, ← hplace,
      Nat.mul_le_mul_right_iff (by positivity)]

theorem WidenedFrom.of_isNaN (hh : fmt.isNaN h.toUInt32 = true)
    (hx : x.toNat = h.toNat / 2 ^ 15 * 2 ^ 31
      + (f32.top + (fmt.widenedPayload quieting h.toUInt32).toNat)) :
    fmt.WidenedFrom quieting h.toUInt32 x := by
  have hlt := widenedPayload_lt hfits hwidth quieting h.toUInt32
  have hquiet := le_widenedPayload_iff hfits hwidth quieting h.toUInt32
  -- zeros are shifted in below the mantissa, so it does not vanish
  have hpos : 0 < (fmt.widenedPayload quieting h.toUInt32).toNat := by
    rw [toNat_widenedPayload hfits hwidth]
    exact lt_of_lt_of_le (Nat.mul_pos (hfits.mantissa_pos_of_isNaN hh) (by positivity))
      Nat.left_le_or
  have hroom : f32.top + 2 ^ 23 = 2 ^ 31 := f32.top_add
  obtain ⟨hsign, hmagnitude⟩ := fields_of_widened hfits hwidth (by omega) hx
  obtain ⟨hnan, hmantissa⟩ := f32_fits.isNaN_of_magnitude hpos hlt hmagnitude
  exact
    { sign_eq := hsign
      isNaN_eq := hnan.trans hh.symm
      isInfinite_eq := by
        rw [f32_fits.not_isInfinite_of_isNaN hnan, hfits.not_isInfinite_of_isNaN hh]
      value_eq := fun hfinite => absurd hh (ne_true_of_eq_false hfinite.1)
      isQuiet_eq := fun _ => by
        rw [Bool.eq_iff_iff, f32_fits.isQuiet_iff, hmantissa]
        exact hquiet
      mantissa_eq := fun _ => UInt32.toNat_inj.mp hmantissa }

end

end Format

/-! ### Half precision -/

namespace F16

theorem narrowedTo_ofF32 (x : UInt32) : Format.f16.NarrowedTo x (ofF32 x).toUInt32 := by
  have hwidth : Format.f16.width.toNat = 16 := rfl
  rcases Format.f32.class_cases x with hfinite | hinfinite | hnan
  · rcases Nat.lt_or_ge (F32.exponent x) 113 with hlo | hlo
    · exact .of_isFinite Format.f16_fits hwidth hfinite (Nat.min_le_left _ _)
        (toNat_ofF32_eq_rounded_of_small hlo)
    · exact .of_isFinite Format.f16_fits hwidth hfinite (Nat.min_le_left _ _)
        (toNat_ofF32_eq_rounded_of_normal hlo (F32.exponent_lt_of_isFinite hfinite))
  · obtain ⟨hexponent, hmantissa⟩ := F32.exponent_of_isInfinite hinfinite
    refine .of_isInfinite Format.f16_fits hwidth hinfinite ?_
    rw [toNat_ofF32_of_special hexponent, if_pos hmantissa, Nat.add_zero]
    rfl
  · obtain ⟨hexponent, hmantissa⟩ := (F32.isNaN_iff x).mp hnan
    refine .of_isNaN Format.f16_fits hwidth hnan ?_
    rw [toNat_ofF32_of_special hexponent, if_neg hmantissa, Nat.add_assoc,
      Format.toNat_narrowedPayload Format.f16_fits hwidth]
    rfl

theorem widenedFrom_toF32 (h : UInt16) : Format.f16.WidenedFrom true h.toUInt32 (toF32 h) := by
  have hwidth : Format.f16.width.toNat = 16 := rfl
  rcases Format.f16.class_cases h.toUInt32 with hfinite | hinfinite | hnan
  · obtain ⟨m, hless, hx, hvalue⟩ := exists_toNat_toF32 hfinite
    exact .of_isFinite Format.f16_fits hwidth hfinite hx hless hvalue
  · have htop : h.toNat % 2 ^ 15 = 31 * 2 ^ 10 := (Format.f16_fits.isInfinite_iff _).mp hinfinite
    refine .of_isInfinite Format.f16_fits hwidth hinfinite ?_
    rw [toNat_toF32_of_special htop.ge, if_pos (by omega), Nat.add_zero]
    rfl
  · have hgreat := (isNaN_iff h).mp hnan
    have hpayload : (Format.f16.widenedPayload true h.toUInt32).toNat
        = (h.toNat % 2 ^ 10 ||| 2 ^ 9) * 2 ^ 13 := toNat_mantissa_shiftLeft_or_quietBit h
    refine .of_isNaN Format.f16_fits hwidth hnan ?_
    rw [toNat_toF32_of_special hgreat.le, if_neg (by omega), hpayload, Nat.add_assoc]
    rfl

end F16

/-! ### The upper half -/

namespace Bf16

theorem narrowedTo_ofF32 (x : UInt32) : Format.bf16.NarrowedTo x (ofF32 x).toUInt32 := by
  have hwidth : Format.bf16.width.toNat = 16 := rfl
  rcases Format.f32.class_cases x with hfinite | hinfinite | hnan
  · exact .of_isFinite Format.bf16_fits hwidth hfinite (Nat.min_le_left _ _)
      (toNat_ofF32_eq_rounded hfinite.1)
  · have htop : x.toNat % 2 ^ 31 = 255 * 2 ^ 23 := (Format.f32_fits.isInfinite_iff x).mp hinfinite
    refine .of_isInfinite Format.bf16_fits hwidth hinfinite ?_
    rw [toNat_ofF32_eq_rounded (F32.not_isNaN_of_isInfinite hinfinite), rounded_eq, htop]
    rfl
  · have hx := x.toNat_lt
    obtain ⟨hexponent, -⟩ := (F32.isNaN_iff x).mp hnan
    rw [F32.exponent_eq] at hexponent
    -- the upper half is the sign, the exponent of the NaNs and the upper part of the mantissa
    have hhigh : (x >>> 16).toUInt16.toNat = x.toNat / 2 ^ 16 := by
      rw [UInt32.toNat_toUInt16, toNat_shiftRight_of_lt x (by decide)]
      show x.toNat / 2 ^ 16 % 2 ^ 16 = _
      omega
    have hquiet : (0x0040 : UInt16).toNat = 2 ^ 6 := rfl
    have hpayload : x.toNat / 2 ^ 16 % 2 ^ 7 = x.toNat % 2 ^ 23 / 2 ^ 16 := by omega
    have hplace : x.toNat / 2 ^ 16 / 2 ^ 7 * 2 ^ 7 = x.toNat / 2 ^ 31 * 2 ^ 15 + 255 * 2 ^ 7 := by
      omega
    refine .of_isNaN Format.bf16_fits hwidth hnan ?_
    rw [ofF32_of_isNaN hnan, UInt16.toNat_or, hhigh, hquiet,
      or_eq_of_lt (k := 7) _ (by norm_num), hpayload, hplace, Nat.add_assoc,
      Format.toNat_narrowedPayload Format.bf16_fits hwidth]
    rfl

theorem widenedFrom_toF32 (b : UInt16) : Format.bf16.WidenedFrom false b.toUInt32 (toF32 b) := by
  have hwidth : Format.bf16.width.toNat = 16 := rfl
  have hx : (toF32 b).toNat = b.toNat / 2 ^ 15 * 2 ^ 31 + b.toNat % 2 ^ 15 * 2 ^ 16 := by
    rw [toNat_toF32]
    omega
  rcases Format.bf16.class_cases b.toUInt32 with hfinite | hinfinite | hnan
  · have hless : b.toNat % 2 ^ 15 < 255 * 2 ^ 7 := (Format.bf16_fits.isFinite_iff _).mp hfinite
    refine .of_isFinite Format.bf16_fits hwidth hfinite hx ?_ (absolute_shift b)
    show _ < 255 * 2 ^ 23
    omega
  · have htop : b.toNat % 2 ^ 15 = 255 * 2 ^ 7 := (Format.bf16_fits.isInfinite_iff _).mp hinfinite
    refine .of_isInfinite Format.bf16_fits hwidth hinfinite ?_
    rw [hx, htop]
    rfl
  · have hgreat := (isNaN_iff b).mp hnan
    refine .of_isNaN Format.bf16_fits hwidth hnan ?_
    rw [hx, Format.toNat_widenedPayload Format.bf16_fits hwidth, if_neg Bool.false_ne_true,
      Nat.or_zero, Format.bf16_fits.toNat_mantissa]
    show _ = _ + (255 * 2 ^ 23 + b.toNat % 2 ^ 7 * 2 ^ 16)
    omega

end Bf16

/-! ### Buffers -/

namespace Format

/-- The NaNs of `out`, a buffer of the second format, are where those of `src` are, and they
are quiet. -/
structure KeepsNaNs (fmt fmt' : Format) (src out : Array UInt32) : Prop where
  isNaN_eq : out.map fmt'.isNaN = src.map fmt.isNaN
  isQuiet : ∀ y ∈ out, fmt'.isNaN y = true → fmt'.isQuiet y = true

theorem KeepsNaNs.map {α : Type} {fmt fmt' : Format} {f g : α → UInt32}
    (hnan : ∀ a, fmt'.isNaN (g a) = fmt.isNaN (f a))
    (hquiet : ∀ a, fmt.isNaN (f a) = true → fmt'.isQuiet (g a) = true) (src : Array α) :
    fmt.KeepsNaNs fmt' (src.map f) (src.map g) where
  isNaN_eq := by
    rw [Array.map_map, Array.map_map]
    exact congrArg (src.map ·) (funext hnan)
  isQuiet := by
    intro y hy hy'
    obtain ⟨a, -, rfl⟩ := Array.mem_map.mp hy
    exact hquiet a ((hnan a).symm.trans hy')

/-- A narrowing of elements keeps the NaNs of buffers. -/
theorem KeepsNaNs.of_narrowedTo {fmt : Format} {narrow : UInt32 → UInt16}
    (h : ∀ x, fmt.NarrowedTo x (narrow x).toUInt32) (src : Array UInt32) :
    f32.KeepsNaNs fmt src ((src.map narrow).map UInt16.toUInt32) := by
  have hkeeps := KeepsNaNs.map (f := id) (fun x => (h x).isNaN_eq) (fun x => (h x).isQuiet) src
  rw [Array.map_id] at hkeeps
  rw [Array.map_map]
  exact hkeeps

/-- A quieting widening of elements keeps the NaNs of buffers. -/
theorem KeepsNaNs.of_widenedFrom {fmt : Format} {widen : UInt16 → UInt32}
    (h : ∀ y, fmt.WidenedFrom true y.toUInt32 (widen y)) (src : Array UInt16) :
    fmt.KeepsNaNs f32 (src.map UInt16.toUInt32) (src.map widen) :=
  KeepsNaNs.map (fun y => (h y).isNaN_eq) (fun y => (h y).isQuiet_eq) src

end Format

namespace Dispatcher

/-- Every way of converting `src` gives `out`: by direction, by the method of the direction, and
in chunks, whatever the order in which they are run. -/
structure Gives (dispatcher : Dispatcher) (d : Direction) (src : Array d.Source)
    (out : Array d.Target) : Prop where
  convert : Yields (dispatcher.convert d) src out
  typed : Yields (dispatcher.typed d) src out
  parConvertBy : ∀ schedule : Nat → List Nat,
    (schedule (chunkCount src.size)).Perm (List.range (chunkCount src.size)) →
    Yields (dispatcher.parConvertBy schedule d) src out

theorem Trusted.gives {dispatcher : Dispatcher} (h : dispatcher.Trusted) (d : Direction)
    (src : Array d.Source) : dispatcher.Gives d src (src.map d.scalar) where
  convert := fun _ hsize => convert_run h.faithful hsize
  typed := h.yields d src
  parConvertBy := fun _ hschedule _ hsize => parConvertBy_run h.faithful hsize hschedule

/-- **Conversions keep the classes of patterns.**  A narrowed pattern is a NaN exactly if the
single-precision one is, then quiet and with the upper bits of its mantissa, and infinities
stay infinities.  A widened pattern has the class, the sign and the value of the narrower one;
of a NaN the mantissa is kept, which half precision makes quiet and the upper half leaves as
it is.  Hence no dispatcher whose kernels honour the prefix loses a NaN, makes one or leaves
one signalling when it narrows floats or widens half precision, however long the buffer. -/
theorem classes_preserved {dispatcher : Dispatcher} (h : dispatcher.Trusted) :
    (∀ x, Format.f16.NarrowedTo x (F16.ofF32 x).toUInt32) ∧
    (∀ x, Format.bf16.NarrowedTo x (Bf16.ofF32 x).toUInt32) ∧
    (∀ y, Format.f16.WidenedFrom true y.toUInt32 (F16.toF32 y)) ∧
    (∀ y, Format.bf16.WidenedFrom false y.toUInt32 (Bf16.toF32 y)) ∧
    (∀ src : Array UInt32, ∃ out : Array UInt16, dispatcher.Gives .f32ToF16 src out ∧
      Format.f32.KeepsNaNs .f16 src (out.map UInt16.toUInt32)) ∧
    (∀ src : Array UInt32, ∃ out : Array UInt16, dispatcher.Gives .f32ToBf16 src out ∧
      Format.f32.KeepsNaNs .bf16 src (out.map UInt16.toUInt32)) ∧
    (∀ src : Array UInt16, ∃ out : Array UInt32, dispatcher.Gives .f16ToF32 src out ∧
      Format.f16.KeepsNaNs .f32 (src.map UInt16.toUInt32) out) := by
  refine ⟨F16.narrowedTo_ofF32, Bf16.narrowedTo_ofF32, F16.widenedFrom_toF32,
    Bf16.widenedFrom_toF32, fun src => ?_, fun src => ?_, fun src => ?_⟩
  · exact ⟨_, h.gives .f32ToF16 src, .of_narrowedTo F16.narrowedTo_ofF32 src⟩
  · exact ⟨_, h.gives .f32ToBf16 src, .of_narrowedTo Bf16.narrowedTo_ofF32 src⟩
  · exact ⟨_, h.gives .f16ToF32 src, .of_widenedFrom F16.widenedFrom_toF32 src⟩

/-- The dispatcher made from the exact sample, and four signalling NaNs: one whose payload lies
in the lower half alone, and one that stays signalling. -/
theorem classes_preserved_exactSample :
    ∃ dispatcher host',
      (Construction.withRegistry (.ofList [.sse41]) ⟨[exactSample]⟩).build (Host.refusing [])
        = .ok dispatcher host' ∧
      Format.f16.NarrowedTo 0x7F800001 0x7E00 ∧ Format.bf16.NarrowedTo 0xFF900000 0xFFD0 ∧
      Format.f16.WidenedFrom true 0x7C01 0x7FC02000 ∧
      Format.bf16.WidenedFrom false 0x7F81 0x7F810000 ∧
      ∃ out, dispatcher.Gives .f32ToBf16 #[0x7F800001, 0x7F7FFFFF, 0xFF800000] out ∧
        Format.f32.KeepsNaNs .bf16 #[0x7F800001, 0x7F7FFFFF, 0xFF800000]
          (out.map UInt16.toUInt32) := by
  obtain ⟨dispatcher, host', hbuild⟩ := withRegistry_exactSample
  have htrusted : dispatcher.Trusted :=
    .of_build hbuild (List.forall_mem_singleton.mpr exactSample_honoursPrefix)
  have hhalf : (F16.ofF32 0x7F800001).toUInt32 = 0x7E00 := by decide
  have hupper : (Bf16.ofF32 0xFF900000).toUInt32 = 0xFFD0 := by decide
  have hquieted : F16.toF32 0x7C01 = 0x7FC02000 := by decide
  have hsignalling : Bf16.toF32 0x7F81 = 0x7F810000 := by decide
  obtain ⟨half, upper, fromHalf, fromUpper, -, buffer, -⟩ := classes_preserved htrusted
  exact ⟨dispatcher, host', hbuild, hhalf ▸ half 0x7F800001, hupper ▸ upper 0xFF900000,
    hquieted ▸ fromHalf 0x7C01, hsignalling ▸ fromUpper 0x7F81,
    buffer #[0x7F800001, 0x7F7FFFFF, 0xFF800000]⟩

end Dispatcher

end Lanewise

/-
Lanewise/Proofs/RoundTrip.lean

Widening and narrowing again gives the data back.

    F16.ofF32 (F16.toF32 h)    =  F16.quieted h
    Bf16.ofF32 (Bf16.toF32 b)  =  Bf16.quieted b
    Byte.ofF32 _ (Byte.toF32 b)  =  b

(`F16.ofF32_toF32`, `Bf16.ofF32_toF32`, `Byte.ofF32_toF32`), where all that `quieted` does
is to set the topmost mantissa bit of a NaN.  A narrowed pattern is quiet already
(`F16.quieted_ofF32`, `Bf16.quieted_ofF32`), so narrowing, widening and narrowing again
is narrowing.  The cases are those of `Proofs/Narrowing.lean`: in each of them a widened
pattern is a multiple of the unit that narrowing divides by.

Since every dispatcher converts as the scalar conversion does, the two ways of a round
trip may be left to different dispatchers (`round_trip`).
-/
import Lanewise.Proofs.Dispatch
import Lanewise.Proofs.Narrowing

namespace Lanewise

/-! ### Half precision -/

namespace F16

/-- A NaN made quiet; any other pattern as it is. -/
def quieted (h : UInt16) : UInt16 := if Format.f16.isNaN h.toUInt32 then h ||| 0x0200 else h

theorem toNat_or_quiet (h : UInt16) :
    (h ||| 0x0200).toNat = h.toNat / 2 ^ 10 * 2 ^ 10 + (h.toNat % 2 ^ 10 ||| 2 ^ 9) :=
  (UInt16.toNat_or _ _).trans (or_eq_of_lt h.toNat (by decide))

theorem ofF32_toF32_of_isNaN {h : UInt16} (hnan : Format.f16.isNaN h.toUInt32 = true) :
    ofF32 (toF32 h) = h ||| 0x0200 := by
  have hh := h.toNat_lt
  have hgreat := (isNaN_iff h).mp hnan
  have hx := toNat_toF32_of_special (h := h) (by omega)
  rw [if_neg (by omega)] at hx
  have hlow : h.toNat % 2 ^ 10 ||| 2 ^ 9 < 2 ^ 10 := Nat.or_lt_two_pow (by omega) (by norm_num)
  have hpos : 2 ^ 9 ≤ h.toNat % 2 ^ 10 ||| 2 ^ 9 := Nat.right_le_or
  have hexponent : F32.exponent (toF32 h) = 255 := by
    rw [F32.exponent_eq]
    omega
  have hpayload : (toF32 h).toNat % 2 ^ 23 / 2 ^ 13 = h.toNat % 2 ^ 10 ||| 2 ^ 9 := by omega
  rw [← UInt16.toNat_inj, toNat_ofF32_of_special hexponent, if_neg (by omega), hpayload,
    Nat.or_assoc, Nat.or_self, toNat_or_quiet]
  omega

/-- The significand of a widened subnormal pattern is a multiple of the subnormal spacing. -/
theorem ofF32_toF32_of_subnormal {h : UInt16} (hlo : 0 < h.toNat % 2 ^ 15)
    (hhi : h.toNat % 2 ^ 15 < 2 ^ 10) : ofF32 (toF32 h) = h := by
  have hx := toNat_toF32_of_subnormal hlo hhi
  have hlog : (h.toNat % 2 ^ 15).log2 ≤ 9 := Nat.le_of_lt_succ ((Nat.log2_lt hlo.ne').mpr hhi)
  obtain ⟨hlead, hnext⟩ := F32.mul_two_pow_bounds (p := 23) hlo (by omega)
  have hexponent : F32.exponent (toF32 h) = (h.toNat % 2 ^ 15).log2 + 103 := by
    rw [F32.exponent_eq]
    omega
  have hsignificand : F32.significand (toF32 h)
      = h.toNat % 2 ^ 15 * 2 ^ (23 - (h.toNat % 2 ^ 15).log2) := by
    rw [F32.significand_eq]
    omega
  have hplace : 126 - ((h.toNat % 2 ^ 15).log2 + 103) = 23 - (h.toNat % 2 ^ 15).log2 := by omega
  rw [← UInt16.toNat_inj, toNat_ofF32_of_subnormal (by omega) (by omega), hsignificand, hexponent,
    hplace, divNearestEven_mul _ (by positivity)]
  omega

theorem ofF32_toF32_of_normal {h : UInt16} (hlo : 2 ^ 10 ≤ h.toNat % 2 ^ 15)
    (hhi : h.toNat % 2 ^ 15 < 31 * 2 ^ 10) : ofF32 (toF32 h) = h := by
  have hx := toNat_toF32_of_normal hlo hhi
  have hexponent := F32.exponent_eq (toF32 h)
  have hwhole : (toF32 h).toNat % 2 ^ 31 - 112 * 2 ^ 23 = h.toNat % 2 ^ 15 * 2 ^ 13 := by omega
  rw [← UInt16.toNat_inj, toNat_ofF32_of_normal (by omega) (by omega), hwhole,
    divNearestEven_mul _ (by norm_num)]
  omega

/-- **Narrowing takes back what widening did**, but for the quiet bit of NaNs. -/
theorem ofF32_toF32 (h : UInt16) : ofF32 (toF32 h) = quieted h := by
  have hexponent := F32.exponent_eq (toF32 h)
  rw [quieted]
  split_ifs with hnan
  · exact ofF32_toF32_of_isNaN hnan
  have hsmall := mt (isNaN_iff h).mpr hnan
  rcases Nat.eq_zero_or_pos (h.toNat % 2 ^ 15) with hzero | hpos
  · have hx := toNat_toF32_of_zero hzero
    rw [← UInt16.toNat_inj, toNat_ofF32_of_underflow (by omega)]
    omega
  rcases Nat.lt_or_ge (h.toNat % 2 ^ 15) (2 ^ 10) with hsub | hnormal
  · exact ofF32_toF32_of_subnormal hpos hsub
  rcases Nat.lt_or_ge (h.toNat % 2 ^ 15) (31 * 2 ^ 10) with hfinite | hinf
  · exact ofF32_toF32_of_normal hnormal hfinite
  · have hx := toNat_toF32_of_special hinf
    rw [if_pos (by omega)] at hx
    rw [← UInt16.toNat_inj, toNat_ofF32_of_special (by omega), if_pos (by omega)]
    omega

/-- What narrowing makes of a number is no NaN. -/
theorem toNat_ofF32_mod_le {x : UInt32} (h : F32.exponent x < 255) :
    (ofF32 x).toNat % 2 ^ 15 ≤ 31 * 2 ^ 10 := by
  rcases Nat.lt_or_ge (F32.exponent x) 113 with hbelow | hnormal
  · rcases Nat.lt_or_ge 101 (F32.exponent x) with hsub | hunder
    · have hsmall := divNearestEven_significand_le hbelow
      rw [toNat_ofF32_of_subnormal hsub hbelow]
      omega
    · rw [toNat_ofF32_of_underflow hunder]
      omega
  · rw [toNat_ofF32_of_normal hnormal h]
    omega

/-- A narrowed NaN is quiet. -/
theorem quieted_ofF32 (x : UInt32) : quieted (ofF32 x) = ofF32 x := by
  rw [quieted]
  split_ifs with hnan
  · have hgreat := (isNaN_iff (ofF32 x)).mp hnan
    have hexponent : F32.exponent x = 255 := by
      have he := F32.exponent_eq x
      by_contra hne
      have hle := toNat_ofF32_mod_le (x := x) (by omega)
      omega
    have hx := toNat_ofF32_of_special hexponent
    split_ifs at hx with hzero
    · omega
    · have hpayload : (ofF32 x).toNat % 2 ^ 10 = x.toNat % 2 ^ 23 / 2 ^ 13 ||| 2 ^ 9 := by
        have hlow : x.toNat % 2 ^ 23 / 2 ^ 13 ||| 2 ^ 9 < 2 ^ 10 :=
          Nat.or_lt_two_pow (by omega) (by norm_num)
        omega
      rw [← UInt16.toNat_inj, toNat_or_quiet, hpayload, Nat.or_assoc, Nat.or_self, ← hpayload]
      omega
  · rfl

end F16

/-! ### The upper half -/

namespace Bf16

/-- A NaN made quiet; any other pattern as it is. -/
def quieted (b : UInt16) : UInt16 := if Format.bf16.isNaN b.toUInt32 then b ||| 0x0040 else b

theorem isNaN_iff (b : UInt16) :
    Format.bf16.isNaN b.toUInt32 = true ↔ 255 * 2 ^ 7 < b.toNat % 2 ^ 15 :=
  Format.bf16_fits.isNaN_iff b.toUInt32

/-- Widening keeps the class of a pattern. -/
theorem isNaN_toF32 (b : UInt16) : F32.isNaN (toF32 b) = Format.bf16.isNaN b.toUInt32 := by
  have hb := b.toNat_lt
  have hexponent := F32.exponent_eq (toF32 b)
  rw [Bool.eq_iff_iff, F32.isNaN_iff, isNaN_iff, hexponent, toNat_toF32]
  omega

/-- **Narrowing takes back what widening did**, but for the quiet bit of NaNs. -/
theorem ofF32_toF32 (b : UInt16) : ofF32 (toF32 b) = quieted b := by
  have hnan := isNaN_toF32 b
  rw [quieted]
  split_ifs with h
  · have hhigh : (toF32 b >>> 16).toUInt16 = b := by
      rw [← UInt16.toNat_inj, UInt32.toNat_toUInt16, toNat_shiftRight_of_lt _ (by decide),
        toNat_toF32]
      show b.toNat * 2 ^ 16 / 2 ^ 16 % 2 ^ 16 = _
      have hb := b.toNat_lt
      omega
    rw [ofF32_of_isNaN (hnan.trans h), hhigh]
  · rw [← UInt16.toNat_inj, toNat_ofF32 (hnan.trans (Bool.eq_false_iff.mpr h)), toNat_toF32,
      divNearestEven_mul _ (by norm_num)]

/-- What narrowing makes of a number is no NaN. -/
theorem toNat_ofF32_mod_le {x : UInt32} (h : F32.isNaN x = false) :
    (ofF32 x).toNat % 2 ^ 15 ≤ 255 * 2 ^ 7 := by
  have hx := x.toNat_lt
  have hsmall := F32.toNat_mod_le_of_not_isNaN h
  have hcount : divNearestEven (x.toNat % 2 ^ 31) (2 ^ 16) ≤ 255 * 2 ^ 7 :=
    divNearestEven_le (by norm_num) hsmall
  -- the sign is an even number of units
  have hparts : x.toNat = x.toNat / 2 ^ 31 * 2 ^ 15 * 2 ^ 16 + x.toNat % 2 ^ 31 := by omega
  have hwhole : divNearestEven x.toNat (2 ^ 16)
      = x.toNat / 2 ^ 31 * 2 ^ 15 + divNearestEven (x.toNat % 2 ^ 31) (2 ^ 16) := by
    conv_lhs => rw [hparts]
    exact divNearestEven_add_mul (by norm_num) (by omega)
  rw [toNat_ofF32 h, hwhole]
  omega

/-- A narrowed NaN is quiet. -/
theorem quieted_ofF32 (x : UInt32) : quieted (ofF32 x) = ofF32 x := by
  rw [quieted]
  split_ifs with hnan
  · have hgreat := (isNaN_iff (ofF32 x)).mp hnan
    rcases hx : F32.isNaN x with _ | _
    · exact absurd (toNat_ofF32_mod_le hx) (Nat.not_le.mpr hgreat)
    · rw [ofF32_of_isNaN hx, UInt16.or_assoc, UInt16.or_self]
  · rfl

end Bf16

/-! ### Bytes -/

namespace Byte

theorem ofF32_toF32 (overflow : Overflow) (b : UInt8) : ofF32 overflow (toF32 b) = b := by
  have hbyte : b.toNat < 2 ^ 8 := b.toNat_lt
  have hfits : b.toNat < 2 ^ 24 := hbyte.trans (by norm_num)
  have hnearest : F32.nearestMagnitude (toF32 b) = b.toNat := F32.nearestMagnitude_ofNat hfits
  have hsmall : (toF32 b).toNat < 151 * 2 ^ 23 := F32.toNat_ofNat_lt hfits
  have hnan : F32.isNaN (toF32 b) = false := by
    apply F32.not_isNaN_of_exponent_lt
    rw [F32.exponent_eq]
    omega
  rw [← UInt8.toNat_inj, toNat_ofF32_of_lt overflow hnan (by omega) (by rwa [hnearest]), hnearest]

end Byte

/-! ### Dispatchers -/

section

variable {α β : Type}

/-- The conversion of a buffer fills every destination of its length with `out`. -/
def Yields (convert : Array α → Converting β Unit) (src : Array α) (out : Array β) : Prop :=
  ∀ w : Workspace β, src.size = w.dst.size → ∃ calls, convert src w = .ok () ⟨out, calls⟩

variable {there : Array α → Converting β Unit} {back back' : Array β → Converting α Unit}
  {f : α → β} {g : β → α} {r : α → α}

/-- There and back by conversions that go element by element. -/
theorem Yields.there_and_back (hthere : ∀ src, Yields there src (src.map f))
    (hback : ∀ src, Yields back src (src.map g)) (h : ∀ a, g (f a) = r a) (src : Array α) :
    ∃ between, Yields there src between ∧ Yields back between (src.map r) := by
  have hmap : (src.map f).map g = src.map r := by
    rw [Array.map_map]
    exact congrArg (src.map ·) (funext h)
  exact ⟨src.map f, hthere src, hmap ▸ hback (src.map f)⟩

/-- Back, there and back again, where the first way back leaves nothing for the round trip
to change. -/
theorem Yields.back_again (hback' : ∀ src, Yields back' src (src.map g))
    (hround : ∀ src, ∃ between, Yields there src between ∧ Yields back between (src.map r))
    (h : ∀ b, r (g b) = g b) (src : Array β) :
    ∃ out between, Yields back' src out ∧ Yields there out between ∧ Yields back between out := by
  obtain ⟨between, hthere, hagain⟩ := hround (src.map g)
  have hmap : (src.map g).map r = src.map g := by
    rw [Array.map_map]
    exact congrArg (src.map ·) (funext h)
  exact ⟨src.map g, between, hback' src, hthere, hmap ▸ hagain⟩

end

namespace Dispatcher

/-- A dispatcher that was made in one of the four ways, and whose kernels honour the prefix. -/
structure Trusted (dispatcher : Dispatcher) : Prop where
  made : ∃ (c : Construction) (host host' : Host), c.build host = .ok dispatcher host'
  honours : ∀ d k, dispatcher.kernel d = some k → k.HonoursPrefix

theorem Trusted.of_build {c : Construction} {host host' : Host} {dispatcher : Dispatcher}
    (hbuild : c.build host = .ok dispatcher host') (hsupplied : ∀ k ∈ c.supplied, k.HonoursPrefix) :
    dispatcher.Trusted where
  made := ⟨c, host, host', hbuild⟩
  honours := fun _ _ hk => (Construction.honoursPrefix_of_build hbuild hsupplied hk).2

theorem Trusted.faithful {dispatcher : Dispatcher} (h : dispatcher.Trusted) :
    dispatcher.Faithful := by
  obtain ⟨c, host, host', hbuild⟩ := h.made
  intro d k hk
  obtain ⟨hcandidate, -⟩ := (Construction.sound_build hbuild).kernel d k hk
  obtain ⟨-, -, hd⟩ := Registry.mem_candidates.mp hcandidate
  exact ⟨hd, h.honours d k hk⟩

theorem Trusted.yields {dispatcher : Dispatcher} (h : dispatcher.Trusted) (d : Direction)
    (src : Array d.Source) : Yields (dispatcher.typed d) src (src.map d.scalar) := by
  intro w hsize
  rw [typed_eq_convert]
  exact convert_run h.faithful hsize

theorem scalar_trusted : scalar.Trusted where
  made := ⟨.scalar, Host.refusing [], Host.refusing [], rfl⟩
  honours := fun _ _ hk => nomatch hk

/-- **Widening and narrowing by any two dispatchers gives the data back**: quieted where they
are 16-bit floats, as they were where they are bytes.  Hence narrowing by a third, widening
and narrowing again is narrowing once. -/
theorem round_trip {first second third : Dispatcher} (h₁ : first.Trusted) (h₂ : second.Trusted)
    (h₃ : third.Trusted) :
    (∀ src, ∃ wide, Yields first.f16ToF32 src wide ∧
      Yields second.f32ToF16 wide (src.map F16.quieted)) ∧
    (∀ src, ∃ wide, Yields first.bf16ToF32 src wide ∧
      Yields second.f32ToBf16 wide (src.map Bf16.quieted)) ∧
    (∀ overflow src, ∃ wide, Yields first.u8ToF32 src wide ∧
      Yields (second.f32ToU8 overflow) wide src) ∧
    (∀ src, ∃ narrow wide, Yields third.f32ToF16 src narrow ∧
      Yields first.f16ToF32 narrow wide ∧ Yields second.f32ToF16 wide narrow) ∧
    (∀ src, ∃ narrow wide, Yields third.f32ToBf16 src narrow ∧
      Yields first.bf16ToF32 narrow wide ∧ Yields second.f32ToBf16 wide narrow) := by
  have half : ∀ src, ∃ wide, Yields first.f16ToF32 src wide ∧
      Yields second.f32ToF16 wide (src.map F16.quieted) :=
    Yields.there_and_back (h₁.yields .f16ToF32) (h₂.yields .f32ToF16) F16.ofF32_toF32
  have upper : ∀ src, ∃ wide, Yields first.bf16ToF32 src wide ∧
      Yields second.f32ToBf16 wide (src.map Bf16.quieted) :=
    Yields.there_and_back (h₁.yields .bf16ToF32) (h₂.yields .f32ToBf16) Bf16.ofF32_toF32
  refine ⟨half, upper, fun overflow src => ?_, ?_, ?_⟩
  · obtain ⟨wide, hwide, hback⟩ := Yields.there_and_back (h₁.yields .u8ToF32)
      (h₂.yields (.f32ToU8 overflow)) (Byte.ofF32_toF32 overflow) src
    rw [Array.map_id'] at hback
    exact ⟨wide, hwide, hback⟩
  · exact Yields.back_again (h₃.yields .f32ToF16) half F16.quieted_ofF32
  · exact Yields.back_again (h₃.yields .f32ToBf16) upper Bf16.quieted_ofF32

/-- The dispatcher made from the exact sample and the one without kernels, one way each: a
number, a subnormal number, an infinity and a NaN of half precision; the ends of the bytes. -/
theorem round_trip_exactSample :
    ∃ dispatcher host',
      (Construction.withRegistry (.ofList [.sse41]) ⟨[exactSample]⟩).build (Host.refusing [])
        = .ok dispatcher host' ∧
      (∃ wide, Yields scalar.f16ToF32 #[0x3C01, 0x8001, 0xFC00, 0x7C01] wide ∧
        Yields dispatcher.f32ToF16 wide #[0x3C01, 0x8001, 0xFC00, 0x7E01]) ∧
      (∃ wide, Yields scalar.u8ToF32 #[0, 255] wide ∧
        Yields (dispatcher.f32ToU8 .saturating) wide #[0, 255]) := by
  obtain ⟨dispatcher, host', hbuild⟩ := withRegistry_exactSample
  have hsupplied : ∀ k ∈ [exactSample], k.HonoursPrefix :=
    List.forall_mem_singleton.mpr exactSample_honoursPrefix
  have htrusted : dispatcher.Trusted := by
    refine ⟨⟨_, _, _, hbuild⟩, fun d k hk => ?_⟩
    obtain ⟨-, hhonours⟩ := Construction.honoursPrefix_of_build hbuild hsupplied hk
    exact hhonours
  have hquieted : #[0x3C01, 0x8001, 0xFC00, 0x7C01].map F16.quieted
      = #[0x3C01, 0x8001, 0xFC00, 0x7E01] := by decide +kernel
  obtain ⟨half, -, bytes, -⟩ := round_trip scalar_trusted htrusted htrusted
  have hhalf := half #[0x3C01, 0x8001, 0xFC00, 0x7C01]
  rw [hquieted] at hhalf
  exact ⟨dispatcher, host', hbuild, hhalf, bytes .saturating #[0, 255]⟩

end Dispatcher

end Lanewise

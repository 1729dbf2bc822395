/-
Lanewise/Proofs/Invocation.lean

Running one kernel on a conversion.

Of a kernel that is exact, an invocation has three outcomes and no other.  Different lengths
are refused first, and another direction next; either way the workspace is as it was.
Otherwise the kernel is called, the prefix that its blocks fill is converted, and nothing
past it is touched (`Kernel.invoke_exact`).  All compiled kernels are such kernels
(`Registry.invoke_compiled`).
-/
import Lanewise.Proofs.Conversion
import Lanewise.Proofs.Families

namespace Lanewise

variable {d : Direction} {src : Array d.Source} {w : Workspace d.Target}

namespace Kernel

theorem invoke_of_lengths_ne (k : Kernel) (hsize : src.size ≠ w.dst.size) :
    k.invoke d src w = .error (.error (.lengthMismatch src.size w.dst.size)) w := by
  show (Converting.check (checkLengths src.size w.dst.size) >>= _) w = _
  rw [check_lengths_of_ne hsize]
  rfl

theorem invoke_of_direction_ne {k : Kernel} (hsize : src.size = w.dst.size)
    (hd : k.direction ≠ d) :
    k.invoke d src w = .error (.error (.directionMismatch k.name d)) w := by
  rw [invoke, dif_neg hd]
  show (Converting.check (checkLengths src.size w.dst.size) >>= fun _ => throw _) w = _
  rw [check_lengths_of_eq hsize]
  rfl

/-- `out` is the destination with its first `count` elements converted and all others kept. -/
structure ConvertedUpTo (count : Nat) (d : Direction) (src : Array d.Source)
    (dst out : Array d.Target) : Prop where
  size_eq : out.size = dst.size
  converted : ∀ i < count, out[i]? = src[i]?.map d.scalar
  kept : ∀ i, count ≤ i → out[i]? = dst[i]?

/-- The call of an exact kernel converts the prefix that its blocks fill. -/
theorem Exact.callFor_run {k : Kernel} (hk : k.Exact) (hd : k.direction = d)
    (hsize : src.size = w.dst.size) :
    ∃ out, k.callFor d hd src w = .ok (Loop.reach k.block src.size) ⟨out, w.calls.push k⟩ ∧
      ConvertedUpTo (Loop.reach k.block src.size) d src w.dst out := by
  subst hd
  obtain ⟨hcount, hout⟩ := hk src.size ⟨src, rfl⟩ ⟨w.dst, hsize.symm⟩
  have hreach := Loop.reach_le k.block src.size
  refine ⟨(k.func ⟨src, rfl⟩ ⟨w.dst, hsize.symm⟩).1.toArray, ?_, ?_, fun i hi => ?_, fun i hi => ?_⟩
  · rw [← hcount]
    exact dif_pos hsize.symm
  · rw [Vector.size_toArray, hsize]
  · have hlt : i < src.size := Nat.lt_of_lt_of_le hi hreach
    rw [Vector.getElem?_toArray, Vector.getElem?_eq_getElem hlt, hout i hlt, if_pos hi,
      Array.getElem?_eq_getElem hlt]
    rfl
  · rw [Vector.getElem?_toArray]
    rcases Nat.lt_or_ge i src.size with hlt | hpast
    · rw [Vector.getElem?_eq_getElem hlt, hout i hlt, if_neg (Nat.not_lt.mpr hi),
        Array.getElem?_eq_getElem (hsize ▸ hlt)]
      rfl
    · rw [Vector.getElem?_eq_none hpast, Array.getElem?_eq_none (hsize ▸ hpast)]

/-- **The outcomes of an invocation**: a mismatch of the lengths, else one of the directions,
both without a trace, else the converted prefix. -/
theorem Exact.invoke_run {k : Kernel} (hk : k.Exact) (d : Direction) (src : Array d.Source)
    (w : Workspace d.Target) :
    (src.size ≠ w.dst.size →
      k.invoke d src w = .error (.error (.lengthMismatch src.size w.dst.size)) w) ∧
    (src.size = w.dst.size → k.direction ≠ d →
      k.invoke d src w = .error (.error (.directionMismatch k.name d)) w) ∧
    (src.size = w.dst.size → k.direction = d →
      ∃ out, k.invoke d src w
          = .ok (Loop.reach k.block src.size) ⟨out, w.calls.push k⟩ ∧
        ConvertedUpTo (Loop.reach k.block src.size) d src w.dst out) := by
  refine ⟨invoke_of_lengths_ne k, invoke_of_direction_ne, fun hsize hd => ?_⟩
  obtain ⟨out, hcall, hout⟩ := hk.callFor_run hd hsize
  exact ⟨out, (Kernel.invoke_run hd hsize).trans hcall, hout⟩

/-- A conversion with an exact kernel reports the prefix that its blocks fill. -/
theorem Exact.convertWith_run {k : Kernel} (hk : k.Exact) (hd : k.direction = d)
    (hsize : src.size = w.dst.size) :
    convertWith (some k) d src w
      = .ok (Loop.reach k.block src.size) ⟨src.map d.scalar, w.calls.push k⟩ := by
  obtain ⟨out, hcall, hout⟩ := hk.callFor_run hd hsize
  have hinvoke := (Kernel.invoke_run hd hsize).trans hcall
  refine convertWith_of_invoke hsize hinvoke (hout.size_eq.trans hsize.symm)
    (Loop.reach_le k.block src.size) fun j hj => ?_
  rw [hout.converted j hj, Array.getElem?_map]

end Kernel

/-! ### The compiled kernels -/

namespace Registry

/-- No block of a compiled kernel is cut off at the width of a word. -/
theorem block_eq_of_mem : ∀ k ∈ compiled.kernels, k.block = k.lanes * k.unroll := by
  decide +kernel

/-- **Every compiled kernel honours the prefix and leaves nothing behind on an error.** -/
theorem invoke_compiled {k : Kernel} (hk : k ∈ compiled.kernels) (d : Direction)
    (src : Array d.Source) (w : Workspace d.Target) :
    (src.size ≠ w.dst.size →
      k.invoke d src w = .error (.error (.lengthMismatch src.size w.dst.size)) w) ∧
    (src.size = w.dst.size → k.direction ≠ d →
      k.invoke d src w = .error (.error (.directionMismatch k.name d)) w) ∧
    (src.size = w.dst.size → k.direction = d →
      ∃ out, k.invoke d src w = .ok (src.size - src.size % (k.lanes * k.unroll))
          ⟨out, w.calls.push k⟩ ∧ out.size = w.dst.size ∧
        (∀ i < src.size - src.size % (k.lanes * k.unroll), out[i]? = src[i]?.map d.scalar) ∧
        ∀ i, src.size - src.size % (k.lanes * k.unroll) ≤ i → out[i]? = w.dst[i]?) := by
  rw [← block_eq_of_mem k hk]
  obtain ⟨hlengths, hdirections, hrun⟩ := (compiled_exact hk).invoke_run d src w
  refine ⟨hlengths, hdirections, fun hsize hd => ?_⟩
  obtain ⟨out, hinvoke, hout⟩ := hrun hsize hd
  exact ⟨out, hinvoke, hout.size_eq, hout.converted, hout.kept⟩

/-- The first compiled kernel converts blocks of 32 floats to binary16. -/
def firstCompiled : Kernel := compiled.kernels.get ⟨0, by decide⟩

/-- Of 33 floats the first kernel converts 32.  It refuses a destination of 32 elements for
33 floats, and 33 floats for another direction. -/
theorem invoke_compiled_first :
    (∃ out, firstCompiled.invoke .f32ToF16 (Array.replicate 33 0x3F800000)
          { dst := Array.replicate 33 0xAAAA } = .ok 32 ⟨out, #[firstCompiled]⟩ ∧
        out[31]? = some 0x3C00 ∧ out[32]? = some 0xAAAA) ∧
      firstCompiled.invoke .f32ToF16 (Array.replicate 33 0x3F800000)
          { dst := Array.replicate 32 0xAAAA }
        = .error (.error (.lengthMismatch 33 32)) { dst := Array.replicate 32 0xAAAA } ∧
      firstCompiled.invoke .f32ToBf16 (Array.replicate 33 0x3F800000)
          { dst := Array.replicate 33 0xAAAA }
        = .error (.error (.directionMismatch "f32_to_f16_2_avx512" .f32ToBf16))
          { dst := Array.replicate 33 0xAAAA } := by
  have hfirst : firstCompiled ∈ compiled.kernels := List.get_mem _ _
  refine ⟨?_, ?_, ?_⟩
  · obtain ⟨out, hrun, -, hconverted, hkept⟩ := (invoke_compiled hfirst .f32ToF16
      (Array.replicate 33 0x3F800000) { dst := Array.replicate 33 0xAAAA }).2.2 rfl (by decide)
    exact ⟨out, hrun, hconverted 31 (by decide), hkept 32 (by decide)⟩
  · exact (invoke_compiled hfirst .f32ToF16 (Array.replicate 33 0x3F800000)
      { dst := Array.replicate 32 0xAAAA }).1 (by decide)
  · exact (invoke_compiled hfirst .f32ToBf16 (Array.replicate 33 0x3F800000)
      { dst := Array.replicate 33 0xAAAA }).2.1 rfl (by decide)

end Registry

end Lanewise

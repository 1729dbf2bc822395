/-
Lanewise/Proofs/Contract.lean

What a dispatcher may rely on.

A kernel `HonoursPrefix` if the elements that it reports are there and are converted.
It says nothing of what the function leaves past them: the scalar conversion writes
there afterwards.  A kernel is `Exact` if it converts the prefix that its blocks fill,
keeps the rest, and reports just that; this is what a loop with a right body does
(`Family.exact_of_mem_kernels`), and it is the stronger of the two (`Exact.honoursPrefix`).
-/
import Lanewise.Kernel.Samples
import Lanewise.Proofs.Loop

namespace Lanewise

/-- Every feature that a kernel requires is there. -/
def Capabilities.Permits (caps : Capabilities) (k : Kernel) : Prop :=
  caps.supports k.requires = true

theorem Capabilities.permits_iff_missing? {caps : Capabilities} {k : Kernel} :
    caps.Permits k ↔ caps.missing? k.requires = Option.none := by
  rw [Permits, supports, Option.isNone_iff_eq_none]

/-- Nothing is missing if every required feature is there. -/
theorem Capabilities.missing?_eq_none_iff {caps : Capabilities} {required : List Feature} :
    caps.missing? required = Option.none ↔ ∀ f ∈ required, caps.has f = true := by
  rw [missing?, List.find?_eq_none]
  refine forall₂_congr fun f _ => ?_
  rw [Bool.not_eq_true', Bool.not_eq_false]

theorem Capabilities.permits_iff {caps : Capabilities} {k : Kernel} :
    caps.Permits k ↔ ∀ f ∈ k.requires, caps.has f = true := by
  rw [permits_iff_missing?, missing?_eq_none_iff]

/-- The first feature that is missing is the one after those that are there. -/
theorem Capabilities.missing?_eq_some_iff {caps : Capabilities} {required : List Feature}
    {f : Feature} : caps.missing? required = some f ↔ ∃ before after,
      required = before ++ f :: after ∧ (∀ g ∈ before, caps.has g = true) ∧
        caps.has f = false := by
  rw [missing?, List.find?_eq_some_iff_append]
  constructor
  · rintro ⟨hf, before, after, hsplit, hbefore⟩
    refine ⟨before, after, hsplit, fun g hg => ?_, (Bool.not_eq_true' _).mp hf⟩
    exact (Bool.not_not _).symm.trans (hbefore g hg)
  · rintro ⟨before, after, hsplit, hbefore, hf⟩
    refine ⟨(Bool.not_eq_true' _).mpr hf, before, after, hsplit, fun g hg => ?_⟩
    exact (Bool.not_not _).trans (hbefore g hg)

/-- What is permitted with fewer features is permitted with more. -/
theorem Capabilities.permits_of_restrict {caps : Capabilities} {disabled : List Feature}
    {k : Kernel} (h : (caps.restrict disabled).Permits k) : caps.Permits k := by
  rw [permits_iff] at h ⊢
  intro f hf
  have hmasked := h f hf
  rw [has_restrict] at hmasked
  exact (Bool.and_eq_true_iff.mp hmasked).1

namespace Kernel

/-- On buffers of one length, the function reports no more elements than there are, and
those that it reports are converted. -/
def HonoursPrefix (k : Kernel) : Prop :=
  ∀ (n : Nat) (src : Vector k.direction.Source n) (dst : Vector k.direction.Target n),
    (k.func src dst).2 ≤ n ∧
      ∀ (i : Nat) (h : i < n), i < (k.func src dst).2 →
        (k.func src dst).1[i] = k.direction.scalar src[i]

/-- The function converts the prefix that blocks fill, and keeps the rest. -/
def Exact (k : Kernel) : Prop :=
  ∀ (n : Nat) (src : Vector k.direction.Source n) (dst : Vector k.direction.Target n),
    (k.func src dst).2 = Loop.reach k.block n ∧
      ∀ (i : Nat) (h : i < n), (k.func src dst).1[i]
        = if i < Loop.reach k.block n then k.direction.scalar src[i] else dst[i]

theorem Exact.honoursPrefix {k : Kernel} (h : k.Exact) : k.HonoursPrefix := by
  intro n src dst
  obtain ⟨hcount, hout⟩ := h n src dst
  rw [hcount]
  refine ⟨Loop.reach_le k.block n, fun i hi hlt => ?_⟩
  rw [hout i hi, if_pos hlt]

end Kernel

/-! ### Rows of a table -/

namespace Family

/-- One register or two divide every unroll factor. -/
theorem registers_dvd {α β : Type} {lanes unroll : Nat} (body : Loop.Body α β lanes)
    (h : unroll ∈ unrolls) : body.registers ∣ unroll := by
  have heven : ∀ u ∈ unrolls, 2 ∣ u := by decide
  cases body with
  | single _ => exact Nat.one_dvd unroll
  | merged _ => exact heven unroll h
  | split _ => exact heven unroll h

/-- A row whose body computes the scalar conversion gives exact kernels. -/
theorem Row.exact_kernel {lanes unroll : Nat} {row : Row lanes}
    (hf : row.body.Computes row.direction.scalar) (hlanes : 0 < lanes) (hmax : lanes ≤ 16)
    (h : unroll ∈ unrolls) (isa : Isa) : (row.kernel isa unroll).Exact := by
  have hunroll : ∀ u ∈ unrolls, 0 < u ∧ u ≤ 8 := by decide
  obtain ⟨hpos, hle⟩ := hunroll unroll h
  -- compiled blocks are far below the size of a word
  have hblock : (row.kernel isa unroll).block = lanes * unroll := by
    have hsmall : lanes * unroll ≤ 16 * 8 := Nat.mul_le_mul hmax hle
    exact Nat.mod_eq_of_lt (Nat.lt_of_le_of_lt hsmall (by decide))
  intro n src dst
  rw [hblock]
  refine ⟨Loop.run_snd unroll row.body src dst, fun i hi => ?_⟩
  exact Loop.getElem_run hf hlanes hpos (registers_dvd row.body h) src dst hi

/-- A table whose rows compute the scalar conversions gives exact kernels. -/
theorem exact_of_mem_kernels {family : Family} (hlanes : 0 < family.lanes)
    (hmax : family.lanes ≤ 16) (hrows : ∀ row ∈ family.rows,
      row.body.Computes row.direction.scalar) {k : Kernel} (hk : k ∈ family.kernels) :
    k.Exact := by
  obtain ⟨row, hrow, hk⟩ := List.mem_flatMap.mp hk
  obtain ⟨unroll, hunroll, rfl⟩ := List.mem_map.mp hk
  exact Row.exact_kernel (hrows row hrow) hlanes hmax hunroll family.isa

end Family

/-! ### Samples -/

/-- A sample that converts with the scalar conversion what it reports honours the prefix. -/
theorem Samples.sample_honoursPrefix {name : String} {d : Direction} {isa : Isa}
    {requires : List Feature} {lanes unroll : Nat} {preferred : Bool}
    {converted reported : Nat → Nat} (hreported : ∀ n, reported n ≤ n)
    (hconverted : ∀ n, reported n ≤ converted n) :
    (sample name d isa requires lanes unroll preferred d.scalar converted
      reported).HonoursPrefix := by
  intro n src dst
  refine ⟨hreported n, fun i hi hlt => ?_⟩
  refine (Vector.getElem_ofFn hi).trans ?_
  exact if_pos (Nat.lt_of_lt_of_le hlt (hconverted n))

end Lanewise

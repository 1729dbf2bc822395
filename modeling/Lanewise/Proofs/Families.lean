/-
Lanewise/Proofs/Families.lean

Every compiled kernel converts its prefix, lane for lane.

For each row of the three tables the body `Computes` the scalar conversion of its
direction.  What differs from family to family is how narrow results come together.
The lanes that arrive at a pack hold widened results (`bf16_eq`, `saturated_eq`,
`wrapped_eq`), so packing only moves them, and the permutations put them into order:

    words:  permuteGroups 4 #[0, 2, 1, 3] (packWords 2 a b) = join a b
    bytes:  packToBytes a b = join a b

(`Avx2.permuteGroups_packWords`, `Avx2.packToBytes_map`, and `Sse41.packToBytes_map`).
The unroll factors are even, so every body divides a block, and **a compiled kernel
converts exactly the prefix that its blocks fill** (`Registry.compiled_exact`).
-/
import Lanewise.Registry
import Lanewise.Proofs.Contract
import Lanewise.Proofs.Lanes.Formula
import Lanewise.Proofs.Lanes.Half

namespace Lanewise

open Lanes

/-! ### Bodies of all families -/

section Bodies

variable {α β γ : Type} {lanes : Nat}

theorem computes_single_map {f : α → β} {g : Vector α lanes → Vector β lanes}
    (h : ∀ v, g v = v.map f) : (Loop.Body.single g).Computes f := by
  intro v i hi
  rw [h, Vector.getElem_map]

theorem computes_merged_join {f : α → β}
    {g : Vector α lanes → Vector α lanes → Vector β (lanes + lanes)}
    (h : ∀ a b, g a b = join (a.map f) (b.map f)) : (Loop.Body.merged g).Computes f := by
  intro a b i hi
  rw [h]
  constructor
  · rw [getElem_join, dif_pos hi, Vector.getElem_map]
  · rw [getElem_join, dif_neg (by omega), Vector.getElem_map]
    simp only [Nat.add_sub_cancel_left]

theorem computes_half :
    (Loop.Body.single fun v : Vector UInt16 lanes => widenLower lanes ofHalf v).Computes
      F16.toF32 := by
  intro v i hi
  rw [getElem_widenLower _ v hi hi, ofHalf_eq]

theorem computes_raise :
    (Loop.Body.single fun v : Vector UInt16 lanes =>
      (widenLower lanes UInt16.toUInt32 v).map raised).Computes Bf16.toF32 := by
  intro v i hi
  rw [Vector.getElem_map, getElem_widenLower _ v hi hi]
  rfl

theorem computes_bytes :
    (Loop.Body.single fun v : Vector UInt8 lanes =>
      (widenLower lanes UInt8.toUInt32 v).map F32.ofInt32).Computes Byte.toF32 := by
  intro v i hi
  rw [Vector.getElem_map, getElem_widenLower _ v hi hi, ofInt32_toUInt32]

/-- The lower bytes of a register fill one register, and the upper ones another. -/
theorem computes_split_bytes :
    (Loop.Body.split fun v : Vector UInt8 (lanes + lanes) =>
      ((widenLower lanes UInt8.toUInt32 v).map F32.ofInt32,
        (widenLower lanes UInt8.toUInt32 (shiftDown lanes v)).map F32.ofInt32)).Computes
      Byte.toF32 := by
  intro v i hi
  constructor
  · rw [Vector.getElem_map, getElem_widenLower _ _ hi (by omega), ofInt32_toUInt32]
  · rw [Vector.getElem_map, getElem_widenLower _ _ hi (by omega), ofInt32_toUInt32,
      getElem_shiftDown _ _ (by omega)]
    simp only [Nat.add_comm]

theorem map_bf16 (v : Vector UInt32 lanes) :
    v.map bf16 = (v.map Bf16.ofF32).map UInt16.toUInt32 := by
  rw [Vector.map_map]
  exact congrArg (Vector.map · v) (funext bf16_eq)

/-- A formula that leaves a byte in the lane. -/
theorem map_formula {formula : UInt32 → UInt32} {f : UInt32 → UInt8}
    (h : ∀ x, formula x = (f x).toUInt32) (v : Vector UInt32 lanes) :
    v.map formula = (v.map f).map UInt8.toUInt32 := by
  rw [Vector.map_map]
  exact congrArg (Vector.map · v) (funext h)

end Bodies

/-! ### Packs of widened lanes -/

section Packs

variable (sections : Nat) {i : Nat}

theorem lane_packWords_map (a b : Vector UInt16 (4 * sections)) (hi : i < 8 * sections) :
    lane (packWords sections (a.map UInt16.toUInt32) (b.map UInt16.toUInt32)) i
      = packed 4 id a b i := by
  rw [lane_packWords sections _ _ hi]
  exact packed_map clampWord_toUInt32 hi a b

/-- A byte goes through the clamps of both packs unchanged. -/
theorem clampByte_lane_packWords_map (a b : Vector UInt8 (4 * sections))
    (hi : i < 8 * sections) :
    clampByte (lane (packWords sections (a.map UInt8.toUInt32) (b.map UInt8.toUInt32)) i)
      = packed 4 id a b i := by
  have hback : ∀ x : UInt8, (clampByte ∘ clampWord) x.toUInt32 = x := clampByte_clampWord
  rw [lane_packWords sections _ _ hi]
  show packed 4 (clampByte ∘ clampWord) _ _ i = _
  exact packed_map hback hi a b

end Packs

/-! ### 128 bits -/

namespace Sse41

theorem packWords_map (a b : Vector UInt16 4) :
    (packWords 1 (a.map UInt16.toUInt32) (b.map UInt16.toUInt32) : Vector UInt16 (4 + 4))
      = join a b := by
  refine Vector.ext fun i hi => ?_
  have hlane := lane_packWords_map 1 a b hi
  rw [lane_eq_getElem _ hi] at hlane
  refine hlane.trans ?_
  rw [getElem_join]
  interval_cases i <;> simp [packed, lane_eq_getElem]

/-- Both packs of a register with itself leave its bytes in the lower half. -/
theorem packToBytes_map (a b : Vector UInt8 4) :
    (lower (n := 8) (packToBytes (a.map UInt8.toUInt32) (b.map UInt8.toUInt32)) :
      Vector UInt8 (4 + 4)) = join a b := by
  refine Vector.ext fun i hi => ?_
  have hword : ∀ {j : Nat}, j < 8 →
      clampByte (lane (packWords 1 (a.map UInt8.toUInt32) (b.map UInt8.toUInt32)) j)
        = packed 4 id a b j :=
    fun hj => clampByte_lane_packWords_map 1 a b hj
  have hbyte : ∀ words : Vector UInt16 (8 * 1),
      lane (n := 8 + 8) (packBytes 1 words words) i = packed 8 clampByte words words i :=
    fun words => lane_packBytes 1 words words (by omega)
  rw [packToBytes]
  refine (getElem_lower _ hi).trans ?_
  rw [← lane_eq_getElem, hbyte, getElem_join]
  interval_cases i <;> exact (hword (by decide)).trans (by simp [packed, lane_eq_getElem])

theorem computes_f32ToF16Merged : f32ToF16Merged.Computes F16.ofF32 := by
  refine computes_merged_join fun a b => ?_
  rw [unpackLower, lower_halvesOf4, lower_halvesOf4]

theorem computes_f32ToBf16 : f32ToBf16.Computes Bf16.ofF32 := by
  refine computes_single_map fun v => ?_
  show lower (n := 4) (packWords 1 (v.map bf16) (v.map bf16)) = _
  rw [map_bf16, packWords_map, lower_join]

theorem computes_f32ToBf16Merged : f32ToBf16Merged.Computes Bf16.ofF32 := by
  refine computes_merged_join fun a b => ?_
  rw [map_bf16, map_bf16, packWords_map]

theorem computes_f32ToU8 {formula : UInt32 → UInt32} {f : UInt32 → UInt8}
    (h : ∀ x, formula x = (f x).toUInt32) : (f32ToU8 formula).Computes f := by
  refine computes_merged_join fun a b => ?_
  rw [map_formula h, map_formula h, packToBytes_map]

theorem computes : ∀ row ∈ family.rows, row.body.Computes row.direction.scalar := by
  repeat' refine List.forall_mem_cons.mpr ⟨?_, ?_⟩
  · exact computes_single_map lower_halvesOf4
  · exact computes_f32ToF16Merged
  · exact computes_half
  · exact computes_f32ToBf16
  · exact computes_f32ToBf16Merged
  · exact computes_raise
  · exact computes_f32ToU8 saturated_eq
  · exact computes_f32ToU8 wrapped_eq
  · exact computes_split_bytes
  · exact List.forall_mem_nil _

end Sse41

/-! ### 256 bits -/

namespace Avx2

theorem permuteGroups_packWords (a b : Vector UInt16 8) :
    (permuteGroups 4 #[0, 2, 1, 3] (packWords 2 (a.map UInt16.toUInt32) (b.map UInt16.toUInt32)) :
      Vector UInt16 (8 + 8)) = join a b := by
  refine Vector.ext fun i hi => ?_
  have hlane : ∀ {j : Nat}, j < 16 → lane (n := 8 + 8)
      (packWords 2 (a.map UInt16.toUInt32) (b.map UInt16.toUInt32)) j = packed 4 id a b j :=
    fun hj => lane_packWords_map 2 a b hj
  rw [← lane_eq_getElem _ hi, lane_permuteGroups _ _ _ hi, getElem_join]
  interval_cases i <;> exact (hlane (by decide)).trans (by simp [packed, lane_eq_getElem])

theorem lower_permuteGroups_packWords (a : Vector UInt16 8) :
    lower (n := 8) (permuteGroups 4 #[0, 2, 0, 0]
      (packWords 2 (a.map UInt16.toUInt32) (a.map UInt16.toUInt32) : Vector UInt16 (8 + 8)))
      = a := by
  refine Vector.ext fun i hi => ?_
  have hlane : ∀ {j : Nat}, j < 16 → lane (n := 8 + 8)
      (packWords 2 (a.map UInt16.toUInt32) (a.map UInt16.toUInt32)) j = packed 4 id a a j :=
    fun hj => lane_packWords_map 2 a a hj
  rw [getElem_lower, ← lane_eq_getElem, lane_permuteGroups _ _ _ (by omega)]
  interval_cases i <;> exact (hlane (by decide)).trans (by simp [packed, lane_eq_getElem])

/-- The permutation undoes what packing section by section does to the order. -/
theorem packToBytes_map (a b : Vector UInt8 8) :
    (packToBytes (a.map UInt8.toUInt32) (b.map UInt8.toUInt32) : Vector UInt8 (8 + 8))
      = join a b := by
  refine Vector.ext fun i hi => ?_
  have hword : ∀ {j : Nat}, j < 16 →
      clampByte (lane (packWords 2 (a.map UInt8.toUInt32) (b.map UInt8.toUInt32)) j)
        = packed 4 id a b j :=
    fun hj => clampByte_lane_packWords_map 2 a b hj
  -- the lanes that the permutation fetches lie in both halves of the packed register
  have hbyte : ∀ {j : Nat}, j < 32 → ∀ words : Vector UInt16 (8 * 2),
      lane (n := 16 + 16) (packBytes 2 words words) j = packed 8 clampByte words words j :=
    fun hj words => lane_packBytes 2 words words hj
  rw [packToBytes]
  refine (getElem_lower _ hi).trans ?_
  rw [← lane_eq_getElem, lane_permuteGroups _ _ _ (by omega), getElem_join]
  interval_cases i <;>
    exact (hbyte (by decide) _).trans
      ((hword (by decide)).trans (by simp [packed, lane_eq_getElem]))

theorem computes_f32ToF16Merged : f32ToF16Merged.Computes F16.ofF32 :=
  computes_merged_join fun a b => by rw [halvesOf_eq, halvesOf_eq]

theorem computes_f32ToBf16 : f32ToBf16.Computes Bf16.ofF32 := by
  refine computes_single_map fun v => ?_
  show lower (n := 8) (permuteGroups 4 _ (packWords 2 (v.map bf16) (v.map bf16))) = _
  rw [map_bf16, lower_permuteGroups_packWords]

theorem computes_f32ToBf16Merged : f32ToBf16Merged.Computes Bf16.ofF32 := by
  refine computes_merged_join fun a b => ?_
  rw [map_bf16, map_bf16, permuteGroups_packWords]

theorem computes_f32ToU8 {formula : UInt32 → UInt32} {f : UInt32 → UInt8}
    (h : ∀ x, formula x = (f x).toUInt32) : (f32ToU8 formula).Computes f := by
  refine computes_merged_join fun a b => ?_
  rw [map_formula h, map_formula h, packToBytes_map]

theorem computes : ∀ row ∈ family.rows, row.body.Computes row.direction.scalar := by
  repeat' refine List.forall_mem_cons.mpr ⟨?_, ?_⟩
  · exact computes_single_map halvesOf_eq
  · exact computes_f32ToF16Merged
  · exact computes_half
  · exact computes_f32ToBf16
  · exact computes_f32ToBf16Merged
  · exact computes_raise
  · exact computes_f32ToU8 saturated_eq
  · exact computes_f32ToU8 wrapped_eq
  · exact computes_split_bytes
  · exact List.forall_mem_nil _

end Avx2

/-! ### 512 bits -/

namespace Avx512

/-- Lanes are truncated one by one, so there is no order to restore. -/
theorem bf16Words_eq (v : Vector UInt32 16) : bf16Words v = v.map Bf16.ofF32 := by
  rw [bf16Words, map_bf16, Vector.map_map, Vector.map_map]
  exact congrArg (Vector.map · v) (funext fun x => UInt16.toUInt16_toUInt32 (Bf16.ofF32 x))

theorem computes_f32ToF16Merged : f32ToF16Merged.Computes F16.ofF32 :=
  computes_merged_join fun a b => by rw [halvesOf_eq, halvesOf_eq]

theorem computes_f32ToBf16Merged : f32ToBf16Merged.Computes Bf16.ofF32 := by
  refine computes_merged_join fun a b => ?_
  rw [bf16Words_eq, bf16Words_eq]

theorem computes_f32ToU8Saturating :
    f32ToU8Saturating.Computes (Byte.ofF32 .saturating) := by
  refine computes_single_map fun v => ?_
  rw [Vector.map_map, Vector.map_map]
  exact congrArg (Vector.map · v) (funext toUInt8_toInt32_clamped)

theorem computes_f32ToU8Narrowing : f32ToU8Narrowing.Computes (Byte.ofF32 .narrowing) := by
  refine computes_single_map fun v => ?_
  rw [Vector.map_map]
  exact congrArg (Vector.map · v) (funext toUInt8_toInt32)

theorem computes : ∀ row ∈ family.rows, row.body.Computes row.direction.scalar := by
  repeat' refine List.forall_mem_cons.mpr ⟨?_, ?_⟩
  · exact computes_single_map halvesOf_eq
  · exact computes_f32ToF16Merged
  · exact computes_half
  · exact computes_single_map bf16Words_eq
  · exact computes_f32ToBf16Merged
  · exact computes_raise
  · exact computes_f32ToU8Saturating
  · exact computes_f32ToU8Narrowing
  · exact computes_bytes
  · exact List.forall_mem_nil _

end Avx512

/-! ### The compiled kernels -/

/-- **Every compiled kernel is exact**, on every processor and for every length. -/
theorem Registry.compiled_exact {k : Kernel} (h : k ∈ Registry.compiled.kernels) : k.Exact := by
  obtain ⟨family, hfamily, hk⟩ := List.mem_flatMap.mp h
  simp only [List.mem_cons, List.not_mem_nil, or_false] at hfamily
  rcases hfamily with rfl | rfl | rfl
  · exact Family.exact_of_mem_kernels (by decide) (by decide) Avx512.computes hk
  · exact Family.exact_of_mem_kernels (by decide) (by decide) Avx2.computes hk
  · exact Family.exact_of_mem_kernels (by decide) (by decide) Sse41.computes hk

example : Registry.compiled.size = 108 := rfl

theorem Registry.compiled_honoursPrefix {k : Kernel} (h : k ∈ Registry.compiled.kernels) :
    k.HonoursPrefix :=
  Kernel.Exact.honoursPrefix (compiled_exact h)

end Lanewise

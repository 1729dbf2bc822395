/-
Lanewise/Proofs/Lanes/Register.lean

What each register instruction leaves in each lane.

One equation for each instruction, with the index on the left as it stands in the
result: a load and a store (`getElem_load`, `getElem_store`), the moves, and the
packs.  Kernels are proved by rewriting with these alone.
-/
import Mathlib.Tactic
import Lanewise.Lanes.Basic

namespace Lanewise.Lanes

variable {α β : Type} {n : Nat}

theorem lane_eq_getElem [Inhabited α] (v : Vector α n) {i : Nat} (h : i < n) : lane v i = v[i] := by
  simp [lane, Vector.getD, h]

/-! ### Loads and stores -/

theorem getElem_load [Inhabited α] {length : Nat} (buffer : Vector α length) {start i : Nat}
    (h : i < n) (hfit : start + n ≤ length) :
    (load n buffer start)[i] = buffer[start + i] := by
  rw [load, Vector.getElem_ofFn]
  exact lane_eq_getElem buffer _

theorem getElem_foldl_set {length : Nat} (buffer : Vector α length) (start : Nat) (g : Fin n → α)
    {j : Nat} (hj : j < length) :
    (Fin.foldl n (fun b i => b.setIfInBounds (start + i) (g i)) buffer)[j]
      = if h : start ≤ j ∧ j < start + n then g ⟨j - start, by omega⟩ else buffer[j] := by
  induction n with
  | zero => rw [Fin.foldl_zero, dif_neg (by omega)]
  | succ n ih =>
    rw [Fin.foldl_succ_last, Vector.getElem_setIfInBounds]
    have hprev := ih fun i => g i.castSucc
    by_cases hlast : start + n = j
    · rw [if_pos (by exact hlast), dif_pos (by omega)]
      exact congrArg g (Fin.ext (show n = j - start by omega))
    · rw [if_neg (by exact hlast)]
      refine hprev.trans ?_
      by_cases hin : start ≤ j ∧ j < start + n
      · rw [dif_pos hin, dif_pos (by omega)]
        rfl
      · rw [dif_neg hin, dif_neg (by omega)]

/-- A store writes its own indices and no other. -/
theorem getElem_store {length : Nat} (buffer : Vector α length) (start : Nat) (v : Vector α n)
    {j : Nat} (hj : j < length) :
    (store buffer start v)[j]
      = if h : start ≤ j ∧ j < start + n then v[j - start] else buffer[j] :=
  getElem_foldl_set buffer start (fun i => v[i]) hj

/-! ### Moves -/

theorem getElem_lower [Inhabited α] (v : Vector α (n + n)) {i : Nat} (h : i < n) :
    (lower v)[i] = v[i] := by
  rw [lower, Vector.getElem_ofFn]
  exact lane_eq_getElem v _

theorem getElem_join (lo hi : Vector α n) {i : Nat} (h : i < n + n) :
    (join lo hi)[i] = if h' : i < n then lo[i] else hi[i - n] := by
  rw [join, Vector.getElem_append]

theorem lower_join [Inhabited α] (lo hi : Vector α n) : lower (join lo hi) = lo := by
  refine Vector.ext fun i h => ?_
  rw [getElem_lower, getElem_join, dif_pos h]

theorem getElem_shiftDown [Inhabited α] (k : Nat) (v : Vector α n) {i : Nat} (h : i + k < n) :
    (shiftDown k v)[i] = v[i + k] := by
  rw [shiftDown, Vector.getElem_ofFn]
  exact lane_eq_getElem v _

theorem getElem_widenLower [Inhabited α] {m : Nat} (f : α → β) (v : Vector α m) {i : Nat}
    (h : i < n) (hm : i < m) : (widenLower n f v)[i] = f v[i] := by
  rw [widenLower, Vector.getElem_ofFn]
  exact congrArg f (lane_eq_getElem v _)

theorem lane_permuteGroups [Inhabited α] (size : Nat) (order : Array Nat) (v : Vector α n)
    {i : Nat} (h : i < n) :
    lane (permuteGroups size order v) i = lane v (order.getD (i / size) 0 * size + i % size) := by
  rw [lane_eq_getElem _ h, permuteGroups, Vector.getElem_ofFn]

/-! ### Packs -/

theorem lane_packWords (sections : Nat) (a b : Vector UInt32 (4 * sections)) {i : Nat}
    (h : i < 8 * sections) : lane (packWords sections a b) i = packed 4 clampWord a b i := by
  rw [lane_eq_getElem _ h, packWords, Vector.getElem_ofFn]

theorem lane_packBytes (sections : Nat) (a b : Vector UInt16 (8 * sections)) {i : Nat}
    (h : i < 16 * sections) : lane (packBytes sections a b) i = packed 8 clampByte a b i := by
  rw [lane_eq_getElem _ h, packBytes, Vector.getElem_ofFn]

/-- A pack of lanes that a formula filled is the pack with the narrowed formula. -/
theorem packed_map {γ : Type} {k sections : Nat} [Inhabited α] [Inhabited β] {f : α → β}
    {narrow : β → γ} {g : α → γ} (h : ∀ x, narrow (f x) = g x) {i : Nat}
    (hi : i < 2 * k * sections) (a b : Vector α (k * sections)) :
    packed k narrow (a.map f) (b.map f) i = packed k g a b i := by
  have hk : 0 < 2 * k := Nat.pos_of_mul_pos_right (Nat.zero_lt_of_lt hi)
  have hbase : i / (2 * k) * k + k ≤ k * sections := by
    have hsection : i / (2 * k) + 1 ≤ sections := Nat.div_lt_of_lt_mul hi
    calc i / (2 * k) * k + k = (i / (2 * k) + 1) * k := by ring
      _ ≤ sections * k := Nat.mul_le_mul_right k hsection
      _ = k * sections := Nat.mul_comm sections k
  have hlane : i % (2 * k) < 2 * k := Nat.mod_lt _ hk
  have hmap : ∀ (v : Vector α (k * sections)) {j : Nat}, j < k →
      narrow (lane (v.map f) (i / (2 * k) * k + j)) = g (lane v (i / (2 * k) * k + j)) := by
    intro v j hj
    have hin : i / (2 * k) * k + j < k * sections := by omega
    rw [lane_eq_getElem _ hin, lane_eq_getElem _ hin, Vector.getElem_map, h]
  simp only [packed]
  split_ifs with hfirst
  · exact hmap a hfirst
  · exact hmap b (by omega)

end Lanewise.Lanes

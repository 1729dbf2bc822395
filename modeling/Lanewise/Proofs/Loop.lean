/-
Lanewise/Proofs/Loop.lean

Unrolled loops convert exactly the prefix that their blocks fill.

A body `Computes f` if every lane that it stores is `f` of the lane that was loaded
from the same index.  That is a statement about registers only.  From it follows what
the body does at one position (`getElem_apply`): it converts the elements from there
up to its width and keeps the others.  The positions of a loop tile the prefix
(`flatMap_positions`), so a run converts the prefix and keeps the rest
(`getElem_run`), for every length and every unroll factor that the body divides.
-/
import Lanewise.Loop
import Lanewise.Proofs.Lanes.Register

namespace Lanewise.Loop

variable {α β : Type} {lanes n : Nat}

namespace Body

/-- Every lane that the body stores is `f` of the lane loaded from the same index. -/
def Computes (f : α → β) : Body α β lanes → Prop
  | single g => ∀ (v : Vector α lanes) (i : Nat) (h : i < lanes), (g v)[i] = f v[i]
  | merged g => ∀ (a b : Vector α lanes) (i : Nat) (h : i < lanes),
      getElem (g a b) i (Nat.lt_add_right lanes h) = f a[i] ∧
        getElem (g a b) (lanes + i) (Nat.add_lt_add_left h lanes) = f b[i]
  | split g => ∀ (v : Vector α (lanes + lanes)) (i : Nat) (h : i < lanes),
      (g v).1[i] = f (getElem v i (Nat.lt_add_right lanes h)) ∧
        (g v).2[i] = f (getElem v (lanes + i) (Nat.add_lt_add_left h lanes))

/-- Elements that one run of the body converts. -/
def width (body : Body α β lanes) : Nat := body.registers * lanes

/-! ### One run of a body -/

/-- Where the body runs, it converts the elements of its width and keeps all others. -/
theorem getElem_apply [Inhabited α] {f : α → β} {body : Body α β lanes} (hf : body.Computes f)
    (src : Vector α n) (dst : Vector β n) {start : Nat} (hfit : start + body.width ≤ n)
    {j : Nat} (hj : j < n) :
    (body.apply src dst start)[j]
      = if start ≤ j ∧ j < start + body.width then f src[j] else dst[j] := by
  cases body with
  | single g =>
    simp only [width, registers, Nat.one_mul] at hfit ⊢
    rw [apply, Lanes.getElem_store]
    by_cases h : start ≤ j ∧ j < start + lanes
    · have hback : start + (j - start) = j := by omega
      rw [dif_pos h, if_pos h, hf, Lanes.getElem_load _ _ hfit]
      simp only [hback]
    · rw [dif_neg h, if_neg h]
  | merged g =>
    simp only [width, registers, Nat.two_mul] at hfit ⊢
    rw [apply, Lanes.getElem_store]
    by_cases h : start ≤ j ∧ j < start + (lanes + lanes)
    · rw [dif_pos h, if_pos h]
      -- the lane comes from the first register or from the second one
      rcases Nat.lt_or_ge (j - start) lanes with hlo | hhi
      · have hback : start + (j - start) = j := by omega
        rw [(hf _ _ _ hlo).1, Lanes.getElem_load _ _ (by omega)]
        simp only [hback]
      · obtain ⟨i, hi⟩ := Nat.exists_eq_add_of_le hhi
        have hback : start + lanes + i = j := by omega
        have hlane := (hf (Lanes.load lanes src start) (Lanes.load lanes src (start + lanes)) i
          (by omega)).2
        simp only [hi]
        rw [hlane, Lanes.getElem_load _ _ (by omega)]
        simp only [hback]
    · rw [dif_neg h, if_neg h]
  | split g =>
    simp only [width, registers, Nat.two_mul] at hfit ⊢
    have hlane := hf (Lanes.load (lanes + lanes) src start)
    rw [apply]
    simp only [Lanes.getElem_store]
    by_cases hhi : start + lanes ≤ j ∧ j < start + lanes + lanes
    · have hback : start + (lanes + (j - (start + lanes))) = j := by omega
      rw [dif_pos hhi, if_pos (by omega), (hlane _ (by omega)).2, Lanes.getElem_load _ _ hfit]
      simp only [hback]
    · rw [dif_neg hhi]
      by_cases hlo : start ≤ j ∧ j < start + lanes
      · have hback : start + (j - start) = j := by omega
        rw [dif_pos hlo, if_pos (by omega), (hlane _ (by omega)).1, Lanes.getElem_load _ _ hfit]
        simp only [hback]
      · rw [dif_neg hlo, if_neg (by omega)]

/-- A body run at several positions converts what any of its runs covers. -/
theorem getElem_foldl_apply [Inhabited α] {f : α → β} {body : Body α β lanes}
    (hf : body.Computes f) (src : Vector α n) (starts : List Nat)
    (hfit : ∀ start ∈ starts, start + body.width ≤ n) (dst : Vector β n) {j : Nat} (hj : j < n) :
    (starts.foldl (body.apply src) dst)[j]
      = if ∃ start ∈ starts, start ≤ j ∧ j < start + body.width then f src[j] else dst[j] := by
  induction starts generalizing dst with
  | nil => simp
  | cons start rest ih =>
    rw [List.foldl_cons, ih (fun s hs => hfit s (List.mem_cons_of_mem _ hs)),
      getElem_apply hf src dst (hfit start List.mem_cons_self)]
    simp only [List.mem_cons, exists_eq_or_imp]
    by_cases hrest : ∃ s ∈ rest, s ≤ j ∧ j < s + body.width
    · rw [if_pos hrest, if_pos (.inr hrest)]
    · rw [if_neg hrest]
      by_cases hhere : start ≤ j ∧ j < start + body.width
      · rw [if_pos hhere, if_pos (.inl hhere)]
      · rw [if_neg hhere, if_neg (not_or.mpr ⟨hhere, hrest⟩)]

end Body

/-! ### The positions of a loop -/

theorem reach_le (block n : Nat) : reach block n ≤ n := Nat.sub_le _ _

theorem dvd_reach (block n : Nat) : block ∣ reach block n := Nat.dvd_sub_mod n

theorem reach_of_dvd {block m : Nat} (h : block ∣ m) : reach block m = m := by
  rw [reach, Nat.mod_eq_zero_of_dvd h, Nat.sub_zero]

/-- Whole blocks in front only shift the prefix. -/
theorem reach_add_of_dvd {block m : Nat} (h : block ∣ m) (r : Nat) :
    reach block (m + r) = m + reach block r := by
  obtain ⟨blocks, rfl⟩ := h
  rw [reach, reach, Nat.mul_add_mod, Nat.add_sub_assoc (Nat.mod_le r block)]

/-- Pieces of one width, laid end to end, list every index once and in order. -/
theorem flatMap_range'_mul (base width count : Nat) :
    (List.range count).flatMap (fun i => List.range' (base + i * width) width)
      = List.range' base (count * width) := by
  induction count with
  | zero => rw [Nat.zero_mul]; rfl
  | succ count ih =>
    rw [List.range_succ, List.flatMap_append, ih, List.flatMap_singleton, Nat.succ_mul,
      List.range'_append_1]

/-- **The positions tile the prefix that blocks fill**, if the body divides a block: the elements
from each position up to the width of the body are the indices of the prefix, in order. -/
theorem flatMap_positions {lanes unroll registers stop : Nat} (hlanes : 0 < lanes)
    (hreg : registers ∣ unroll) (hunroll : 0 < unroll) (hstop : lanes * unroll ∣ stop) :
    (positions lanes unroll registers stop).flatMap
      (fun start => List.range' start (registers * lanes)) = List.range stop := by
  obtain ⟨steps, rfl⟩ := hreg
  obtain ⟨blocks, rfl⟩ := hstop
  have hregisters : 0 < registers := Nat.pos_of_mul_pos_right hunroll
  have hsteps : (registers * steps + registers - 1) / registers = steps := by
    rw [Nat.add_sub_assoc hregisters, Nat.mul_add_div hregisters,
      Nat.div_eq_of_lt (Nat.sub_lt hregisters Nat.one_pos), Nat.add_zero]
  have hblocks : lanes * (registers * steps) * blocks / (lanes * (registers * steps)) = blocks :=
    Nat.mul_div_cancel_left _ (Nat.mul_pos hlanes hunroll)
  have hwidth : lanes * (registers * steps) = steps * (registers * lanes) := by ring
  -- the steps of a block tile the block, and the blocks tile the prefix
  have hblock : ∀ block : Nat, ((List.range steps).map fun step =>
        block * (lanes * (registers * steps)) + step * registers * lanes).flatMap
        (fun start => List.range' start (registers * lanes))
      = List.range' (0 + block * (lanes * (registers * steps))) (lanes * (registers * steps)) := by
    intro block
    simp only [List.flatMap_map, Nat.mul_assoc _ registers lanes]
    rw [flatMap_range'_mul, ← hwidth, Nat.zero_add]
  rw [positions, hsteps, hblocks, List.flatMap_assoc]
  simp only [hblock]
  rw [flatMap_range'_mul, List.range_eq_range', Nat.mul_comm blocks]

theorem exists_position_iff {lanes unroll registers stop : Nat} (hlanes : 0 < lanes)
    (hreg : registers ∣ unroll) (hunroll : 0 < unroll) (hstop : lanes * unroll ∣ stop) (j : Nat) :
    (∃ start ∈ positions lanes unroll registers stop,
      start ≤ j ∧ j < start + registers * lanes) ↔ j < stop := by
  rw [← List.mem_range, ← flatMap_positions hlanes hreg hunroll hstop, List.mem_flatMap]
  simp only [List.mem_range'_1]

/-! ### A run -/

/-- **A loop converts the prefix that its blocks fill** and keeps the rest. -/
theorem getElem_run [Inhabited α] {f : α → β} {body : Body α β lanes} (hf : body.Computes f)
    (hlanes : 0 < lanes) {unroll : Nat} (hunroll : 0 < unroll) (hreg : body.registers ∣ unroll)
    (src : Vector α n) (dst : Vector β n) {j : Nat} (hj : j < n) :
    (run unroll body src dst).1[j]
      = if j < reach (lanes * unroll) n then f src[j] else dst[j] := by
  have htile := exists_position_iff hlanes hreg hunroll (dvd_reach (lanes * unroll) n)
  have hfit : ∀ start ∈ positions lanes unroll body.registers (reach (lanes * unroll) n),
      start + body.width ≤ n := by
    intro start hstart
    have hwidth : 0 < body.registers * lanes :=
      Nat.mul_pos (Nat.pos_of_dvd_of_pos hreg hunroll) hlanes
    have hlast := (htile (start + (body.registers * lanes - 1))).mp ⟨start, hstart, by omega⟩
    have hle := reach_le (lanes * unroll) n
    rw [Body.width]
    omega
  rw [run, Body.getElem_foldl_apply hf src _ hfit dst hj]
  simp only [Body.width, htile]

theorem run_snd [Inhabited α] (unroll : Nat) (body : Body α β lanes) (src : Vector α n)
    (dst : Vector β n) : (run unroll body src dst).2 = reach (lanes * unroll) n := rfl

end Lanewise.Loop

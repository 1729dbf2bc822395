/-
Lanewise/Proofs/Slice.lean

What cutting a part out and writing it back leaves at each index.

A part that fits is written over its own indices and no other (`getElem?_splice`), so
the size stays (`size_splice`).  Elements are read as options: an index past the end
then needs no case of its own.
-/
import Mathlib.Tactic
import Lanewise.Slice

namespace Lanewise.Slice

variable {α : Type} {data part values : Array α} {start : Nat}

theorem size_splice (h : start ≤ data.size) : (splice data start part).size = data.size := by
  simp [splice]
  omega

/-- A part is written over its own indices and no other. -/
theorem getElem?_splice (h : start + part.size ≤ data.size) (j : Nat) :
    (splice data start part)[j]?
      = if start ≤ j ∧ j < start + part.size then part[j - start]? else data[j]? := by
  have hpart : part.extract 0 (data.size - start) = part :=
    Array.extract_eq_self_of_le (by omega)
  have hlead : (data.extract 0 start).size = start := by
    rw [Array.size_extract]
    omega
  have htail : (data.extract 0 start ++ part).size = start + part.size := by
    rw [Array.size_append, hlead]
  rw [splice, hpart, Array.getElem?_append, htail]
  rcases Nat.lt_or_ge j (start + part.size) with hj | hj
  · rw [if_pos hj, Array.getElem?_append, hlead]
    rcases Nat.lt_or_ge j start with hlo | hhi
    · rw [if_pos hlo, if_neg (by omega), Array.getElem?_extract, if_pos (by omega), Nat.zero_add]
    · rw [if_neg (by omega), if_pos ⟨hhi, hj⟩]
  · rw [if_neg (by omega), if_neg (by omega), Array.getElem?_extract]
    rcases Nat.lt_or_ge j data.size with hin | hout
    · rw [if_pos (by omega), Nat.add_sub_cancel' hj]
    · rw [if_neg (by omega), Array.getElem?_eq_none hout]

/-- Values over all elements leave nothing of these. -/
theorem overwrite_of_size_eq (h : values.size = data.size) :
    overwrite data values = .ok values := by
  have hvalues : splice data 0 values = values := by
    refine Array.ext_getElem? fun j => ?_
    rw [getElem?_splice (by omega), Nat.zero_add, Nat.sub_zero]
    by_cases hj : j < values.size
    · rw [if_pos ⟨Nat.zero_le j, hj⟩]
    · rw [if_neg fun hin => hj hin.2, Array.getElem?_eq_none (by omega),
        Array.getElem?_eq_none (by omega)]
  rw [overwrite, if_pos h, hvalues]

end Lanewise.Slice

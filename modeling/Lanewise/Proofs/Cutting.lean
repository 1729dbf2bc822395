/-
Lanewise/Proofs/Cutting.lean

What cutting a text and trimming a piece of it leave.

A cut is described from its result: pieces without a separator in them, at least one, that
give the text again when a separator is put between any two (`IsCut`).  There is one such
list of pieces for each text, and it is the one that is computed:

    pieces separator cs = ps  ↔  IsCut separator cs ps                 (`pieces_eq_iff`)

Trimming is described the other way round, from the text.  Blanks, a word without blanks and
blanks again are trimmed to the word (`trim_padded`), and every text is its trimmed form
with blanks around it (`exists_padding`).
-/
import Mathlib.Data.List.DropRight
import Lanewise.Text.Blank

namespace Lanewise.Text

/-! ### Cutting at a separator -/

section

variable {α : Type} {separator : α} {cs : List α} {ps : List (List α)}

/-- The text is cut into the pieces at each of its separators. -/
structure IsCut (separator : α) (cs : List α) (ps : List (List α)) : Prop where
  ne_nil : ps ≠ []
  not_mem : ∀ piece ∈ ps, separator ∉ piece
  intercalate_eq : [separator].intercalate ps = cs

variable [BEq α]

theorem pieces_eq_splitOn (separator : α) (cs : List α) :
    pieces separator cs = cs.splitOn separator := by
  induction cs with
  | nil => rfl
  | cons c cs ih =>
    rw [pieces, List.splitOn_cons_eq_if_modifyHead, ← ih]
    rcases hrest : pieces separator cs with _ | ⟨piece, rest⟩
    · exact absurd hrest (pieces_ne_nil separator cs)
    · rfl

variable [LawfulBEq α]

theorem not_mem_of_mem_pieces : ∀ piece ∈ pieces separator cs, separator ∉ piece := by
  induction cs with
  | nil => simp [pieces]
  | cons c cs ih =>
    rw [pieces]
    split
    · exact List.forall_mem_cons.mpr ⟨List.not_mem_nil, ih⟩
    · rename_i hc
      have hne : separator ≠ c := fun h => hc (beq_iff_eq.mpr h.symm)
      rcases hrest : pieces separator cs with _ | ⟨piece, rest⟩
      · exact absurd hrest (pieces_ne_nil separator cs)
      · rw [hrest] at ih
        obtain ⟨hpiece, hlater⟩ := List.forall_mem_cons.mp ih
        exact List.forall_mem_cons.mpr ⟨List.not_mem_cons_of_ne_of_not_mem hne hpiece, hlater⟩

theorem isCut_pieces (separator : α) (cs : List α) : IsCut separator cs (pieces separator cs) where
  ne_nil := pieces_ne_nil separator cs
  not_mem := not_mem_of_mem_pieces
  intercalate_eq := by rw [pieces_eq_splitOn, List.intercalate_splitOn]

theorem pieces_eq_iff : pieces separator cs = ps ↔ IsCut separator cs ps := by
  refine ⟨fun h => h ▸ isCut_pieces separator cs, fun h => ?_⟩
  rw [pieces_eq_splitOn, ← h.intercalate_eq, List.splitOn_intercalate separator h.not_mem h.ne_nil]

end

/-! ### Trimming -/

section

variable {cs before word after : List Char}

/-- There are blanks only. -/
def Blank (cs : List Char) : Prop := ∀ c ∈ cs, isBlank c = true

-- Not by inference, which may try all characters in place of those of the text.
instance (cs : List Char) : Decidable (Blank cs) :=
  List.decidableBAll (fun c => isBlank c = true) cs

theorem Blank.comma_not_mem (h : Blank cs) : ',' ∉ cs := fun hc =>
  absurd (h ',' hc) (by decide)

theorem trim_eq_rdropWhile (cs : List Char) :
    trim cs = (cs.dropWhile isBlank).rdropWhile isBlank := rfl

theorem rdropWhile_append_of_blank (cs : List Char) (hafter : Blank after) :
    (cs ++ after).rdropWhile isBlank = cs.rdropWhile isBlank := by
  rw [List.rdropWhile, List.reverse_append,
    List.dropWhile_append_of_pos fun c hc => hafter c (List.mem_reverse.mp hc), ← List.rdropWhile]

theorem trim_eq_nil_iff : trim cs = [] ↔ Blank cs := by
  rw [trim_eq_rdropWhile, List.rdropWhile_eq_nil_iff]
  refine ⟨fun h => ?_, fun h c hc => h c ((List.dropWhile_sublist isBlank).mem hc)⟩
  -- What is left after the blanks in front begins with no blank, so nothing is left.
  have hnil : cs.dropWhile isBlank = [] := by
    rw [← List.dropWhile_idempotent, List.dropWhile_eq_nil_iff]
    exact h
  exact List.dropWhile_eq_nil_iff.mp hnil

/-- No blank is a letter, so none of them has another case. -/
theorem toLower_of_isBlank {c : Char} (h : isBlank c = true) : c.toLower = c := by
  have hranges : c.toNat < 'A'.toNat ∨ 'Z'.toNat < c.toNat := by
    simp only [isBlank, blankRanges, List.any_cons, List.any_nil, Bool.or_eq_true,
      Bool.and_eq_true, decide_eq_true_eq, Bool.or_false] at h
    have hA : 'A'.toNat = 65 := rfl
    have hZ : 'Z'.toNat = 90 := rfl
    omega
  refine dif_neg fun hletter => ?_
  rcases hranges with hlow | hhigh
  · exact Nat.not_lt.mpr hletter.1 hlow
  · exact Nat.not_lt.mpr hletter.2 hhigh

/-- Every text is its trimmed form with blanks around it. -/
theorem exists_padding (cs : List Char) :
    ∃ before after, Blank before ∧ Blank after ∧ cs = before ++ trim cs ++ after := by
  refine ⟨cs.takeWhile isBlank, (cs.dropWhile isBlank).rtakeWhile isBlank,
    fun c => List.mem_takeWhile_imp, fun c => List.mem_rtakeWhile_imp, ?_⟩
  rw [List.append_assoc, trim_eq_rdropWhile, List.rdropWhile_append_rtakeWhile,
    List.takeWhile_append_dropWhile]

theorem trim_padded (hbefore : Blank before) (hword : ∀ c ∈ word, isBlank c = false)
    (hafter : Blank after) : trim (before ++ word ++ after) = word := by
  rw [trim_eq_rdropWhile, List.append_assoc, List.dropWhile_append_of_pos hbefore]
  rcases word with _ | ⟨c, word⟩
  · rw [List.nil_append, List.rdropWhile_eq_nil_iff]
    exact fun c hc => hafter c ((List.dropWhile_sublist isBlank).mem hc)
  · have hc : ¬isBlank c = true := by rw [hword c List.mem_cons_self]; decide
    have hlast : ∀ hne : c :: word ≠ [], ¬isBlank ((c :: word).getLast hne) = true := fun hne => by
      rw [hword _ (List.getLast_mem hne)]
      decide
    rw [List.cons_append, List.dropWhile_cons_of_neg hc, ← List.cons_append,
      rdropWhile_append_of_blank _ hafter, List.rdropWhile_eq_self_iff.mpr hlast]

end

end Lanewise.Text

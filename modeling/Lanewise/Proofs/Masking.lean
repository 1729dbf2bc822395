/-
Lanewise/Proofs/Masking.lean

What a configured list of features masks out.

A list is cut at its commas, and its blank pieces count for nothing.  The others are read
from first to last, so there are two ways for reading to end:

    parseNames names = .ok (the named features)       every piece names a feature
    parseNames names = .error (.unknownFeature _)     some piece does not

The first piece that is no name decides (`parseNames_eq`): what follows it is not looked at,
and the error has it as it was written.

Which lists are read is a grammar: a piece is blank, or it is a word for a feature
(`Feature.IsWord`) with blanks around it (`Written`, `parseNames_eq_ok_iff`).  No word and no
blank has a comma in it, so pieces that are joined with commas are cut into the same pieces
again (`parseNames_intercalate`).

What is named is masked, and nothing else (`restrictByNames_grammar`).  Where nothing is
configured the list is empty, and an empty list masks nothing (`restrict_nil`).
-/
import Mathlib.Data.List.Nodup
import Lanewise.Capabilities
import Lanewise.Proofs.Cutting

namespace Lanewise

/-! ### Words for features -/

namespace Feature

variable {f : Feature} {word piece : List Char} {c : Char}

theorem name_injective : Function.Injective name := fun f g h =>
  List.inj_on_of_nodup_map (by decide : (all.map name).Nodup) f.mem_all g.mem_all h

/-- The word is the feature's name, in any case of its ASCII letters; the dot of `sse4.1`
may be left out. -/
def IsWord (f : Feature) (word : List Char) : Prop :=
  word.map Char.toLower = f.name.toList ∨ f = .sse41 ∧ word.map Char.toLower = "sse41".toList

instance (f : Feature) (word : List Char) : Decidable (f.IsWord word) :=
  inferInstanceAs (Decidable (_ ∨ _))

/-- The piece is a word for the feature with blanks around it. -/
def Spelled (f : Feature) (piece : List Char) : Prop :=
  ∃ before word after, Text.Blank before ∧ f.IsWord word ∧ Text.Blank after ∧
    piece = before ++ word ++ after

theorem not_isBlank_of_mem_name (hc : c ∈ f.name.toList) : Text.isBlank c = false := by
  have hall : f.name.toList.all (!Text.isBlank ·) = true := by cases f <;> decide
  have hc := List.all_eq_true.mp hall c hc
  rwa [Bool.not_eq_true'] at hc

theorem comma_not_mem_name (f : Feature) : ',' ∉ f.name.toList := by cases f <;> decide

namespace IsWord

theorem toLower_mem (h : f.IsWord word) (hc : c ∈ word) : c.toLower ∈ f.name.toList := by
  have hlower : c.toLower ∈ word.map Char.toLower := List.mem_map_of_mem hc
  rcases h with h | ⟨rfl, h⟩
  · rwa [h] at hlower
  · rw [h] at hlower
    exact (by decide : "sse41".toList ⊆ sse41.name.toList) hlower

theorem not_isBlank (h : f.IsWord word) : ∀ c ∈ word, Text.isBlank c = false := by
  intro c hc
  by_contra hblank
  rw [Bool.not_eq_false] at hblank
  have hname := not_isBlank_of_mem_name (h.toLower_mem hc)
  rw [Text.toLower_of_isBlank hblank, hblank] at hname
  cases hname

theorem comma_not_mem (h : f.IsWord word) : ',' ∉ word := fun hcomma =>
  comma_not_mem_name f (h.toLower_mem hcomma)

theorem ne_nil (h : f.IsWord word) : word ≠ [] := by
  rintro rfl
  rcases h with h | ⟨-, h⟩
  · cases f <;> cases h
  · cases h

end IsWord

theorem spelled_iff : f.Spelled piece ↔ f.IsWord (Text.trim piece) := by
  constructor
  · rintro ⟨before, word, after, hbefore, hword, hafter, rfl⟩
    rw [Text.trim_padded hbefore hword.not_isBlank hafter]
    exact hword
  · intro h
    obtain ⟨before, after, hbefore, hafter, hcut⟩ := Text.exists_padding piece
    exact ⟨before, Text.trim piece, after, hbefore, h, hafter, hcut⟩

theorem Spelled.not_blank (h : f.Spelled piece) : ¬Text.Blank piece := fun hblank =>
  (spelled_iff.mp h).ne_nil (Text.trim_eq_nil_iff.mpr hblank)

theorem Spelled.comma_not_mem (h : f.Spelled piece) : ',' ∉ piece := by
  obtain ⟨before, word, after, hbefore, hword, hafter, rfl⟩ := h
  simp only [List.mem_append, not_or]
  exact ⟨⟨hbefore.comma_not_mem, hword.comma_not_mem⟩, hafter.comma_not_mem⟩

theorem normalize_eq_iff : normalize piece = f.name.toList ↔ f.IsWord (Text.trim piece) := by
  rw [normalize, IsWord]
  split
  · rename_i hword
    rw [hword]
    cases f <;> decide
  · rename_i hword
    exact ⟨.inl, fun h => h.resolve_right fun h => hword h.2⟩

theorem name_toList_of_ofName? (h : ofName? piece = some f) : f.name.toList = normalize piece := by
  rw [ofName?] at h
  have hname := List.find?_some h
  exact beq_iff_eq.mp hname

theorem ofName?_eq_some_iff : ofName? piece = some f ↔ f.IsWord (Text.trim piece) := by
  rw [← normalize_eq_iff]
  constructor
  · intro h
    exact (name_toList_of_ofName? h).symm
  · intro h
    rcases hfind : ofName? piece with _ | g
    · exact absurd (beq_iff_eq.mpr h.symm) (List.find?_eq_none.mp hfind f f.mem_all)
    · have hname := (name_toList_of_ofName? hfind).trans h
      rw [name_injective (String.toList_injective hname)]

theorem ofName?_of_spelled (h : f.Spelled piece) : ofName? piece = some f :=
  ofName?_eq_some_iff.mpr (spelled_iff.mp h)

theorem ofName?_ne_none_iff :
    ofName? piece ≠ .none ↔ ∃ f : Feature, f.IsWord (Text.trim piece) := by
  simp only [Option.ne_none_iff_exists', ofName?_eq_some_iff]

end Feature

namespace Capabilities

/-! ### Reading from first to last -/

/-- The pieces of a list that are not blank. -/
def listed (names : String) : List (List Char) :=
  (Text.pieces ',' names.toList).filter fun piece => !(Text.trim piece).isEmpty

/-- The pieces without the blank ones. -/
def nonblank (pieces : List (List Char)) : List (List Char) :=
  pieces.filter fun piece => !(Text.trim piece).isEmpty

theorem listed_eq (names : String) : listed names = nonblank (Text.pieces ',' names.toList) := rfl

theorem restrict_nil (caps : Capabilities) : caps.restrict [] = caps := by
  refine Capabilities.ext fun f => ?_
  rw [has_restrict, List.contains_nil, Bool.not_false, Bool.and_true]

section

variable {names : String}

/-- The first piece that is no name decides. -/
theorem parseNames_eq (names : String) :
    parseNames names =
      match (listed names).find? fun piece => (Feature.ofName? piece).isNone with
      | some piece => .error (.unknownFeature (String.ofList piece))
      | .none => .ok ((listed names).filterMap Feature.ofName?) := by
  rw [parseNames, ← listed]
  generalize listed names = pieces
  induction pieces with
  | nil => rfl
  | cons piece pieces ih =>
    rw [List.mapM_cons, ih, List.find?_cons, List.filterMap_cons]
    rcases Feature.ofName? piece with _ | f
    · rfl
    · rcases pieces.find? fun piece => (Feature.ofName? piece).isNone with _ | unknown <;> rfl

theorem parseNames_of_known (h : ∀ piece ∈ listed names, Feature.ofName? piece ≠ .none) :
    parseNames names = .ok ((listed names).filterMap Feature.ofName?) := by
  have hfind : (listed names).find? (fun piece => (Feature.ofName? piece).isNone) = .none :=
    List.find?_eq_none.mpr fun piece hpiece hnone =>
      h piece hpiece (Option.isNone_iff_eq_none.mp hnone)
  rw [parseNames_eq, hfind]

/-- A piece that names no feature is not passed over. -/
theorem parseNames_of_unknown (h : ∃ piece ∈ listed names, Feature.ofName? piece = .none) :
    ∃ unknown, parseNames names = .error (.unknownFeature unknown) := by
  obtain ⟨piece, hpiece, hnone⟩ := h
  rw [parseNames_eq]
  rcases hfind : (listed names).find? fun piece => (Feature.ofName? piece).isNone with _ | unknown
  · exact absurd (Option.isNone_iff_eq_none.mpr hnone) (List.find?_eq_none.mp hfind piece hpiece)
  · exact ⟨String.ofList unknown, rfl⟩

theorem known_of_parseNames {features : List Feature} (h : parseNames names = .ok features) :
    ∀ piece ∈ listed names, Feature.ofName? piece ≠ .none := by
  intro piece hpiece hnone
  obtain ⟨unknown, hunknown⟩ := parseNames_of_unknown ⟨piece, hpiece, hnone⟩
  rw [hunknown] at h
  cases h

/-- The first piece that is no word for a feature. -/
def FirstUnknown (pieces : List (List Char)) (piece : List Char) : Prop :=
  ∃ before after, pieces = before ++ piece :: after ∧
    (∀ earlier ∈ before, ∃ f : Feature, f.IsWord (Text.trim earlier)) ∧
    ∀ f : Feature, ¬f.IsWord (Text.trim piece)

theorem find?_isNone_iff {pieces : List (List Char)} {piece : List Char} :
    (pieces.find? fun piece => (Feature.ofName? piece).isNone) = some piece ↔
      FirstUnknown pieces piece := by
  have hunknown : (Feature.ofName? piece).isNone = true ↔
      ∀ f : Feature, ¬f.IsWord (Text.trim piece) := by
    rw [Option.isNone_iff_eq_none, ← not_iff_not, ← ne_eq, Feature.ofName?_ne_none_iff,
      not_forall_not]
  have hknown : ∀ earlier, (!(Feature.ofName? earlier).isNone) = true ↔
      ∃ f : Feature, f.IsWord (Text.trim earlier) := fun earlier => by
    rw [Bool.not_eq_true', Option.isNone_eq_false_iff, Option.isSome_iff_ne_none,
      Feature.ofName?_ne_none_iff]
  rw [List.find?_eq_some_iff_append, hunknown, FirstUnknown]
  simp only [hknown]
  constructor
  · rintro ⟨hpiece, before, after, hpieces, hbefore⟩
    exact ⟨before, after, hpieces, hbefore, hpiece⟩
  · rintro ⟨before, after, hpieces, hbefore, hpiece⟩
    exact ⟨hpiece, before, after, hpieces, hbefore⟩

theorem parseNames_eq_error_iff {e : Error} :
    parseNames names = .error e ↔
      ∃ piece, FirstUnknown (listed names) piece ∧ e = .unknownFeature (String.ofList piece) := by
  constructor
  · intro h
    rw [parseNames_eq] at h
    rcases hfind : (listed names).find? fun piece => (Feature.ofName? piece).isNone with _ | piece
    · rw [hfind] at h
      cases h
    · rw [hfind] at h
      cases h
      exact ⟨piece, find?_isNone_iff.mp hfind, rfl⟩
  · rintro ⟨piece, hpiece, rfl⟩
    rw [parseNames_eq, find?_isNone_iff.mpr hpiece]

end

/-! ### Lists as they are written -/

/-- The pieces name the features one after another, each with blanks around its name, and
blank pieces stand anywhere between. -/
inductive Written : List (List Char) → List Feature → Prop where
  | nil : Written [] []
  | blank {piece : List Char} {pieces : List (List Char)} {features : List Feature} :
    Text.Blank piece → Written pieces features → Written (piece :: pieces) features
  | name {piece : List Char} {f : Feature} {pieces : List (List Char)} {features : List Feature} :
    f.Spelled piece → Written pieces features → Written (piece :: pieces) (f :: features)

section

variable {names : String} {piece : List Char} {pieces : List (List Char)} {features : List Feature}

theorem nonblank_cons_of_blank (h : Text.Blank piece) :
    nonblank (piece :: pieces) = nonblank pieces := by
  have htrim : ¬(!(Text.trim piece).isEmpty) = true := by
    rw [Text.trim_eq_nil_iff.mpr h]
    decide
  rw [nonblank, List.filter_cons, if_neg htrim, ← nonblank]

theorem nonblank_cons_of_not_blank (h : ¬Text.Blank piece) :
    nonblank (piece :: pieces) = piece :: nonblank pieces := by
  have htrim : (!(Text.trim piece).isEmpty) = true := by
    rw [Bool.not_eq_true', List.isEmpty_eq_false_iff]
    exact mt Text.trim_eq_nil_iff.mp h
  rw [nonblank, List.filter_cons, if_pos htrim, ← nonblank]

/-- Pieces that are written so are read piece by piece. -/
theorem Written.reads (h : Written pieces features) :
    (∀ piece ∈ nonblank pieces, Feature.ofName? piece ≠ .none) ∧
      (nonblank pieces).filterMap Feature.ofName? = features := by
  induction h with
  | nil => exact ⟨fun _ hpiece => absurd hpiece List.not_mem_nil, rfl⟩
  | blank hblank _ ih =>
    rw [nonblank_cons_of_blank hblank]
    exact ih
  | name hspelled _ ih =>
    have hname := Feature.ofName?_of_spelled hspelled
    rw [nonblank_cons_of_not_blank hspelled.not_blank, List.filterMap_cons, hname, ih.2,
      List.forall_mem_cons, hname]
    exact ⟨⟨Option.some_ne_none _, ih.1⟩, rfl⟩

/-- Whatever can be read is written so. -/
theorem written_of_known (h : ∀ piece ∈ nonblank pieces, Feature.ofName? piece ≠ .none) :
    Written pieces ((nonblank pieces).filterMap Feature.ofName?) := by
  induction pieces with
  | nil => exact .nil
  | cons piece pieces ih =>
    by_cases hblank : Text.Blank piece
    · rw [nonblank_cons_of_blank hblank] at h ⊢
      exact .blank hblank (ih h)
    · rw [nonblank_cons_of_not_blank hblank] at h ⊢
      obtain ⟨hpiece, hpieces⟩ := List.forall_mem_cons.mp h
      obtain ⟨f, hf⟩ := Option.ne_none_iff_exists'.mp hpiece
      rw [List.filterMap_cons, hf]
      exact .name (Feature.spelled_iff.mpr (Feature.ofName?_eq_some_iff.mp hf)) (ih hpieces)

theorem Written.comma_not_mem (h : Written pieces features) : ∀ piece ∈ pieces, ',' ∉ piece := by
  induction h with
  | nil => exact fun _ hpiece => absurd hpiece List.not_mem_nil
  | blank hblank _ ih => exact List.forall_mem_cons.mpr ⟨hblank.comma_not_mem, ih⟩
  | name hspelled _ ih => exact List.forall_mem_cons.mpr ⟨hspelled.comma_not_mem, ih⟩

/-- A list is read as the features that are written in it. -/
theorem parseNames_eq_ok_iff :
    parseNames names = .ok features ↔ Written (Text.pieces ',' names.toList) features := by
  constructor
  · intro h
    have hknown := known_of_parseNames h
    rw [parseNames_of_known hknown] at h
    cases h
    rw [listed_eq] at hknown ⊢
    exact written_of_known hknown
  · intro h
    obtain ⟨hknown, hfeatures⟩ := h.reads
    rw [← listed_eq] at hknown hfeatures
    rw [parseNames_of_known hknown, hfeatures]

/-- Pieces that are written so come back when they are joined with commas. -/
theorem parseNames_intercalate (h : Written pieces features) :
    parseNames (String.ofList ([','].intercalate pieces)) = .ok features := by
  rw [parseNames_eq_ok_iff, String.toList_ofList]
  rcases pieces with _ | ⟨piece, pieces⟩
  · cases h
    -- The text without a character is cut into one blank piece.
    exact .blank (fun _ hc => absurd hc List.not_mem_nil) .nil
  · have hcut : Text.IsCut ',' ([','].intercalate (piece :: pieces)) (piece :: pieces) :=
      ⟨List.cons_ne_nil piece pieces, h.comma_not_mem, rfl⟩
    rw [Text.pieces_eq_iff.mpr hcut]
    exact h

end

/-! ### What is masked -/

section

variable {caps : Capabilities} {names : String}

theorem restrictByNames_eq_ok_iff {c : Capabilities} :
    caps.restrictByNames names = .ok c ↔
      ∃ features, parseNames names = .ok features ∧ c = caps.restrict features := by
  rw [restrictByNames]
  rcases parseNames names with e | features
  · exact ⟨nofun, nofun⟩
  · constructor
    · intro h
      cases h
      exact ⟨features, rfl, rfl⟩
    · rintro ⟨_, h, rfl⟩
      cases h
      rfl

theorem restrictByNames_eq_error_iff {e : Error} :
    caps.restrictByNames names = .error e ↔ parseNames names = .error e := by
  rw [restrictByNames]
  rcases parseNames names with e' | features
  · rw [Except.map, Except.error.injEq, Except.error.injEq]
  · exact ⟨nofun, nofun⟩

theorem mem_filterMap_listed {f : Feature} :
    f ∈ (listed names).filterMap Feature.ofName? ↔
      ∃ piece ∈ listed names, f.IsWord (Text.trim piece) := by
  simp only [List.mem_filterMap, Feature.ofName?_eq_some_iff]

theorem has_restrict_iff {disabled : List Feature} {f : Feature} :
    (caps.restrict disabled).has f = true ↔ caps.has f = true ∧ f ∉ disabled := by
  rw [has_restrict, Bool.and_eq_true, Bool.not_eq_true', List.contains_eq_mem,
    decide_eq_false_iff_not]

end

/-- **The configured list.**  The text is cut at its commas and nowhere else, and the blank
pieces are dropped.  It is accepted if each of the others, trimmed, is a word for a feature,
and then these features are masked and no others; otherwise the first piece that is no word is
reported as it was written.  So features that are written one after another, with blanks around
their names and blank pieces between them, are all masked. -/
theorem restrictByNames_grammar (caps : Capabilities) (names : String) :
    Text.IsCut ',' names.toList (Text.pieces ',' names.toList) ∧
    ((∃ c, caps.restrictByNames names = .ok c) ↔
      ∀ piece ∈ listed names, ∃ f : Feature, f.IsWord (Text.trim piece)) ∧
    (∀ c, caps.restrictByNames names = .ok c → ∀ f, c.has f = true ↔
      caps.has f = true ∧ ¬∃ piece ∈ listed names, f.IsWord (Text.trim piece)) ∧
    (∀ e, caps.restrictByNames names = .error e ↔
      ∃ piece, FirstUnknown (listed names) piece ∧ e = .unknownFeature (String.ofList piece)) ∧
    ∀ pieces features, Written pieces features →
      caps.restrictByNames (String.ofList ([','].intercalate pieces)) =
        .ok (caps.restrict features) := by
  refine ⟨Text.isCut_pieces ',' names.toList, ⟨?_, ?_⟩, ?_, ?_, ?_⟩
  · rintro ⟨c, hc⟩ piece hpiece
    obtain ⟨features, hfeatures, -⟩ := restrictByNames_eq_ok_iff.mp hc
    exact Feature.ofName?_ne_none_iff.mp (known_of_parseNames hfeatures piece hpiece)
  · intro h
    have hknown : ∀ piece ∈ listed names, Feature.ofName? piece ≠ .none := fun piece hpiece =>
      Feature.ofName?_ne_none_iff.mpr (h piece hpiece)
    exact ⟨_, restrictByNames_eq_ok_iff.mpr ⟨_, parseNames_of_known hknown, rfl⟩⟩
  · intro c hc f
    obtain ⟨features, hfeatures, rfl⟩ := restrictByNames_eq_ok_iff.mp hc
    rw [parseNames_of_known (known_of_parseNames hfeatures)] at hfeatures
    cases hfeatures
    rw [has_restrict_iff, mem_filterMap_listed]
  · intro e
    rw [restrictByNames_eq_error_iff, parseNames_eq_error_iff]
  · intro pieces features h
    exact restrictByNames_eq_ok_iff.mpr ⟨features, parseNames_intercalate h, rfl⟩

theorem restrictByNames_padded :
    (ofList [.sse41, .avx2, .f16c, .avx512f]).restrictByNames " AVX512F,\t,sse41\u3000,Sse4.1" =
        .ok (ofList [.avx2, .f16c]) ∧
      (ofList [.avx2]).restrictByNames "avx2, Avx 2,,avx" = .error (.unknownFeature " Avx 2") := by
  constructor
  · have hwritten : Written [" AVX512F".toList, ['\t'], "sse41\u3000".toList, "Sse4.1".toList]
        [.avx512f, .sse41, .sse41] :=
      .name ⟨[' '], "AVX512F".toList, [], by decide, by decide, by decide, by decide⟩
        (.blank (by decide)
          (.name ⟨[], "sse41".toList, "\u3000".toList, by decide, by decide, by decide, by decide⟩
            (.name ⟨[], "Sse4.1".toList, [], by decide, by decide, by decide, by decide⟩ .nil)))
    have hnames : String.ofList ([','].intercalate
        [" AVX512F".toList, ['\t'], "sse41\u3000".toList, "Sse4.1".toList]) =
        " AVX512F,\t,sse41\u3000,Sse4.1" := by decide
    have hleft : (ofList [.sse41, .avx2, .f16c, .avx512f]).restrict [.avx512f, .sse41, .sse41] =
        ofList [.avx2, .f16c] := by decide
    rw [← hnames, ← hleft]
    exact (restrictByNames_grammar _ "").2.2.2.2 _ _ hwritten
  · refine ((restrictByNames_grammar (ofList [.avx2]) "avx2, Avx 2,,avx").2.2.2.1 _).mpr
      ⟨" Avx 2".toList, ⟨["avx2".toList], ["avx".toList], by decide, ?_, ?_⟩, by decide⟩
    · intro earlier hearlier
      exact ⟨.avx2, by rw [List.mem_singleton.mp hearlier]; decide⟩
    · intro f
      cases f <;> decide

end Capabilities

end Lanewise

/-
Lanewise/Proofs/VersionText.lean

What is read from a compiler's version text.

Each step of the reading is described by the texts for which it gives a result: a line and its
label by the text around them (`FirstLabelled`), a component by the dots around it
(`SecondComponent`), a number by its digits (`Numeral`).  The steps find exactly what is
described (`findSome?_lines_iff`, `getElem?_one_pieces_iff`, `number?_eq_some_iff`), so the
minor version is known from any text that tells it, and from no other text:

    minor? text = some n  ↔  TellsMinor text n                      (`minor?_eq_some_iff`)

A text that tells a whole release `A.B.C` tells its second component
(`TellsRelease.tellsMinor`).
-/
import Mathlib.Data.List.Infix
import Mathlib.Tactic
import Lanewise.Proofs.Cutting
import Lanewise.Toolchain

namespace Lanewise

/-! ### Pieces from the first one on -/

namespace Text

variable {α : Type} [BEq α] [LawfulBEq α] {separator : α} {piece : List α}

theorem pieces_of_not_mem (h : separator ∉ piece) : pieces separator piece = [piece] :=
  pieces_eq_iff.mpr ⟨List.cons_ne_nil _ _, List.forall_mem_singleton.mpr h,
    List.intercalate_singleton⟩

theorem pieces_append_cons (h : separator ∉ piece) (rest : List α) :
    pieces separator (piece ++ separator :: rest) = piece :: pieces separator rest := by
  obtain ⟨hne, hnot, hjoin⟩ := isCut_pieces separator rest
  refine pieces_eq_iff.mpr ⟨List.cons_ne_nil _ _, List.forall_mem_cons.mpr ⟨h, hnot⟩, ?_⟩
  rw [List.intercalate_cons_of_ne_nil hne, hjoin, List.append_assoc, List.singleton_append]

end Text

namespace Toolchain

/-! ### Lines -/

section

variable {text line rest label : List Char}

theorem lines_of_not_mem (h : '\n' ∉ line) : lines line = [line] := by
  rw [lines, Text.pieces_of_not_mem h]
  rfl

theorem lines_append_cons (h : '\n' ∉ line) (after : List Char) :
    lines (line ++ '\n' :: after) = Text.dropReturn line :: lines after := by
  have hne := Text.pieces_ne_nil '\n' after
  simp only [lines, Text.pieces_append_cons h]
  rw [List.dropLast_cons_of_ne_nil hne, List.map_cons, List.getLast?_cons_of_ne_nil hne]
  rfl

theorem afterLabel?_append (label rest : List Char) :
    afterLabel? label (label ++ rest) = some rest := by
  have h : label.isPrefixOf (label ++ rest) = true :=
    List.isPrefixOf_iff_prefix.mpr (List.prefix_append label rest)
  rw [afterLabel?, if_pos h, List.drop_left]

theorem afterLabel?_eq_none_iff : afterLabel? label line = none ↔ ¬label <+: line := by
  rw [← List.isPrefixOf_iff_prefix, afterLabel?, ite_eq_right_iff]
  simp only [reduceCtorEq, imp_false]

theorem afterLabel?_eq_some_iff : afterLabel? label line = some rest ↔ line = label ++ rest := by
  refine ⟨fun h => ?_, fun h => h ▸ afterLabel?_append label rest⟩
  obtain ⟨after, rfl⟩ : label <+: line := by
    by_contra hlabel
    rw [afterLabel?_eq_none_iff.mpr hlabel] at h
    cases h
  rw [afterLabel?_append] at h
  rw [Option.some.inj h]

/-- `rest` follows the label in the first line that begins with it. -/
inductive FirstLabelled (label : List Char) : List Char → List Char → Prop
  /-- The line is the last one, and nothing ends it. -/
  | last {rest : List Char} : '\n' ∉ label ++ rest → FirstLabelled label (label ++ rest) rest
  /-- A line feed ends the line. -/
  | ended {line rest after : List Char} : '\n' ∉ line → Text.dropReturn line = label ++ rest →
      FirstLabelled label (line ++ '\n' :: after) rest
  /-- The line comes after one without the label. -/
  | later {line rest after : List Char} : '\n' ∉ line → ¬label <+: Text.dropReturn line →
      FirstLabelled label after rest → FirstLabelled label (line ++ '\n' :: after) rest

/-- Searching the lines finds what follows the label in the first line that has it. -/
theorem findSome?_lines_iff :
    (lines text).findSome? (afterLabel? label) = some rest ↔ FirstLabelled label text rest := by
  constructor
  · intro h
    induction hn : text.length using Nat.strong_induction_on generalizing text with
    | _ n ih =>
      by_cases hend : '\n' ∈ text
      · obtain ⟨line, after, rfl, hline⟩ := List.eq_append_cons_of_mem hend
        rw [lines_append_cons hline, List.findSome?_cons] at h
        rcases hlabel : afterLabel? label (Text.dropReturn line) with _ | found
        · rw [hlabel] at h
          have hless : after.length < n := by
            rw [← hn, List.length_append, List.length_cons]
            omega
          exact .later hline (afterLabel?_eq_none_iff.mp hlabel) (ih _ hless h rfl)
        · rw [hlabel] at h
          obtain rfl : found = rest := Option.some.inj h
          exact .ended hline (afterLabel?_eq_some_iff.mp hlabel)
      · rw [lines_of_not_mem hend, List.findSome?_singleton] at h
        obtain rfl := afterLabel?_eq_some_iff.mp h
        exact .last hend
  · intro h
    induction h with
    | last hend =>
      rw [lines_of_not_mem hend, List.findSome?_singleton]
      exact afterLabel?_eq_some_iff.mpr rfl
    | ended hline hlabel =>
      rw [lines_append_cons hline, List.findSome?_cons, afterLabel?_eq_some_iff.mpr hlabel]
    | later hline hlabel _ ih =>
      rw [lines_append_cons hline, List.findSome?_cons, afterLabel?_eq_none_iff.mpr hlabel, ih]

end

/-! ### Components and numbers -/

section

variable {release component text digits : List Char} {n : Nat}

/-- `component` is the second of the components that dots separate. -/
inductive SecondComponent : List Char → List Char → Prop
  /-- Nothing comes after it. -/
  | last {first component : List Char} : '.' ∉ first → '.' ∉ component →
      SecondComponent (first ++ '.' :: component) component
  /-- Another one comes after it. -/
  | inner {first component rest : List Char} : '.' ∉ first → '.' ∉ component →
      SecondComponent (first ++ '.' :: (component ++ '.' :: rest)) component

theorem getElem?_one_pieces_iff :
    (Text.pieces '.' release)[1]? = some component ↔ SecondComponent release component := by
  constructor
  · intro h
    by_cases hdot : '.' ∈ release
    · obtain ⟨first, after, rfl, hfirst⟩ := List.eq_append_cons_of_mem hdot
      rw [Text.pieces_append_cons hfirst, List.getElem?_cons_succ] at h
      by_cases hmore : '.' ∈ after
      · obtain ⟨second, rest, rfl, hsecond⟩ := List.eq_append_cons_of_mem hmore
        rw [Text.pieces_append_cons hsecond] at h
        obtain rfl : second = component := Option.some.inj h
        exact .inner hfirst hsecond
      · rw [Text.pieces_of_not_mem hmore] at h
        obtain rfl : after = component := Option.some.inj h
        exact .last hfirst hmore
    · rw [Text.pieces_of_not_mem hdot] at h
      cases h
  · intro h
    cases h with
    | last hfirst hsecond =>
      rw [Text.pieces_append_cons hfirst, Text.pieces_of_not_mem hsecond]
      rfl
    | inner hfirst hsecond =>
      rw [Text.pieces_append_cons hfirst, Text.pieces_append_cons hsecond]
      rfl

/-- Decimal digits, at least one, and the number that they write. -/
structure Numeral (digits : List Char) (n : Nat) : Prop where
  ne_nil : digits ≠ []
  isDigit : ∀ c ∈ digits, c.isDigit = true
  value_eq : Nat.ofDigitChars 10 digits 0 = n

theorem numeral_iff : Numeral digits n
    ↔ digits ≠ [] ∧ (∀ c ∈ digits, c.isDigit = true) ∧ Nat.ofDigitChars 10 digits 0 = n :=
  ⟨fun h => ⟨h.ne_nil, h.isDigit, h.value_eq⟩, fun h => ⟨h.1, h.2.1, h.2.2⟩⟩

instance (digits : List Char) (n : Nat) : Decidable (Numeral digits n) :=
  have : Decidable (∀ c ∈ digits, c.isDigit = true) :=
    List.decidableBAll (fun c => c.isDigit = true) digits
  decidable_of_iff _ numeral_iff.symm

theorem Numeral.not_mem (h : Numeral digits n) {c : Char} (hc : c.isDigit = false) :
    c ∉ digits := fun hmem => by
  rw [h.isDigit c hmem] at hc
  cases hc

/-- A text without the plus sign before it. -/
def unsigned : List Char → List Char
  | '+' :: rest => rest
  | other => other

theorem Numeral.unsigned_eq (h : Numeral digits n) : unsigned digits = digits := by
  rw [unsigned.eq_def]
  split
  · exact absurd List.mem_cons_self (h.not_mem (c := '+') rfl)
  · rfl

/-- Without its sign, a text is read by its digits alone. -/
theorem number?_eq (text : List Char) :
    number? text = if (unsigned text).isEmpty || !(unsigned text).all Char.isDigit then none
      else if Nat.ofDigitChars 10 (unsigned text) 0 < 2 ^ 32
        then some (Nat.ofDigitChars 10 (unsigned text) 0) else none := by
  have hvalue : (unsigned text).foldl (fun n c => n * 10 + (c.toNat - '0'.toNat)) 0
      = Nat.ofDigitChars 10 (unsigned text) 0 := by
    rw [Nat.ofDigitChars_eq_foldl]
    simp only [Nat.mul_comm]
  rw [← hvalue]
  rfl

theorem number?_eq_some_iff : number? text = some n ↔ Numeral (unsigned text) n ∧ n < 2 ^ 32 := by
  have hguard : ((unsigned text).isEmpty || !(unsigned text).all Char.isDigit) = true
      ↔ ¬(unsigned text ≠ [] ∧ ∀ c ∈ unsigned text, c.isDigit = true) := by
    rw [Bool.or_eq_true, List.isEmpty_iff, Bool.not_eq_true', ← Bool.not_eq_true, List.all_eq_true,
      not_and_or, not_not]
  rw [number?_eq]
  split_ifs with hother hsmall
  · refine iff_of_false (by simp) ?_
    rintro ⟨h, -⟩
    exact hguard.mp hother ⟨h.ne_nil, h.isDigit⟩
  · obtain ⟨hne, hdigit⟩ := not_not.mp (mt hguard.mpr hother)
    rw [Option.some.injEq]
    constructor
    · rintro rfl
      exact ⟨⟨hne, hdigit, rfl⟩, hsmall⟩
    · exact fun h => h.1.value_eq
  · refine iff_of_false (by simp) ?_
    rintro ⟨h, hlt⟩
    exact hsmall (h.value_eq ▸ hlt)

end

/-! ### The channel -/

theorem mentions_iff {word text : List Char} : mentions word text = true ↔ word <:+: text := by
  induction text with
  | nil => rw [mentions, List.isEmpty_iff, List.infix_nil]
  | cons c cs ih =>
    rw [mentions, Bool.or_eq_true, List.isPrefixOf_iff_prefix, ih, List.infix_cons_iff]

/-- The word for a nightly compiler stands somewhere in the text. -/
def SaysNightly (text : List Char) : Prop := "nightly".toList <:+: text

instance (text : List Char) : Decidable (SaysNightly text) :=
  inferInstanceAs (Decidable (_ <:+: text))

theorem nightly_ofVersion_iff {text : List Char} :
    (ofVersion text).nightly = true ↔ SaysNightly text := mentions_iff

/-! ### The minor version -/

section

variable {text : List Char} {n : Nat}

/-- What the line that tells the release begins with. -/
def releaseLabel : List Char := "release: ".toList

/-- The first line that tells the release has the minor version for its second component.  A plus
sign may precede the number, which has to fit a word of 32 bits. -/
def TellsMinor (text : List Char) (n : Nat) : Prop :=
  ∃ release component, FirstLabelled releaseLabel text release ∧
    SecondComponent release component ∧ Numeral (unsigned component) n ∧ n < 2 ^ 32

/-- **The minor version is read from the texts that tell it.** -/
theorem minor?_eq_some_iff : minor? text = some n ↔ TellsMinor text n := by
  simp only [minor?, Option.bind_eq_bind, Option.bind_eq_some_iff, TellsMinor,
    ← findSome?_lines_iff, ← getElem?_one_pieces_iff, ← number?_eq_some_iff, exists_and_left]
  rfl

theorem minor?_eq_none_iff : minor? text = none ↔ ∀ n, ¬TellsMinor text n := by
  simp only [← minor?_eq_some_iff, Option.eq_none_iff_forall_ne_some, ne_eq]

/-- A release number.  The components fit words of 32 bits. -/
structure Release where
  major : UInt32
  minor : UInt32
  patch : UInt32
deriving DecidableEq, Repr

/-- The text is the release in decimal, with dots between the components. -/
def Release.WrittenAs (r : Release) (text : List Char) : Prop :=
  ∃ major minor patch, text = major ++ '.' :: (minor ++ '.' :: patch) ∧
    Numeral major r.major.toNat ∧ Numeral minor r.minor.toNat ∧ Numeral patch r.patch.toNat

/-- The first line that tells the release tells this one. -/
def TellsRelease (text : List Char) (r : Release) : Prop :=
  ∃ release, FirstLabelled releaseLabel text release ∧ r.WrittenAs release

theorem tellsRelease_of_findSome? {r : Release} (major minor patch : List Char)
    (h : (lines text).findSome? (afterLabel? releaseLabel)
      = some (major ++ '.' :: (minor ++ '.' :: patch)))
    (hmajor : Numeral major r.major.toNat) (hminor : Numeral minor r.minor.toNat)
    (hpatch : Numeral patch r.patch.toNat) : TellsRelease text r :=
  ⟨_, findSome?_lines_iff.mp h, major, minor, patch, rfl, hmajor, hminor, hpatch⟩

theorem TellsRelease.tellsMinor {r : Release} (h : TellsRelease text r) :
    TellsMinor text r.minor.toNat := by
  obtain ⟨release, hfirst, major, minor, patch, rfl, hmajor, hminor, -⟩ := h
  refine ⟨_, minor, hfirst, .inner (hmajor.not_mem rfl) (hminor.not_mem rfl), ?_,
    r.minor.toNat_lt⟩
  rwa [hminor.unsigned_eq]

end

end Toolchain

end Lanewise

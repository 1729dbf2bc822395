/-
Lanewise/Capabilities.lean

Sets of processor features.

A `Capabilities` value is a snapshot of what a processor offers.  Features are
masked out by `restrict`, or by `restrictByNames` from a list as it is written in
the configuration.  What a kernel requires is asked with `missing?` and
`supports`.

A set is a word with one bit for each feature, at the feature's place in their order.
The other bits are never set, so two sets with the same members are the same word
(`Capabilities.ext`).
-/
import Lanewise.Error

namespace Lanewise

/-- The bit that stands for a feature. -/
def Feature.bit (f : Feature) : UInt16 := 1 <<< UInt16.ofNat f.ctorIdx

/-- A set of features. -/
structure Capabilities where
  bits : UInt16
  /-- Only bits that stand for features are set. -/
  bits_lt : bits.toNat < 0x800
deriving DecidableEq

namespace Feature

theorem bit_lt (f : Feature) : f.bit.toNat < 0x800 := by cases f <;> decide

theorem bit_toBitVec (f : Feature) : f.bit.toBitVec = BitVec.twoPow 16 f.ctorIdx := by
  cases f <;> rfl

theorem ctorIdx_lt (f : Feature) : f.ctorIdx < 16 := by cases f <;> decide

theorem ctorIdx_inj {f g : Feature} : f.ctorIdx = g.ctorIdx ↔ f = g := by
  have hall : ∀ f ∈ all, ∀ g ∈ all, f.ctorIdx = g.ctorIdx → f = g := by decide
  exact ⟨hall f f.mem_all g g.mem_all, congrArg _⟩

theorem exists_ctorIdx_eq {i : Nat} (h : i < all.length) : ∃ f : Feature, f.ctorIdx = i := by
  have hall : ∀ i < all.length, ∃ f ∈ all, f.ctorIdx = i := by decide
  obtain ⟨f, -, hf⟩ := hall i h
  exact ⟨f, hf⟩

end Feature

namespace Capabilities

/-- Whether the set holds a feature. -/
def has (caps : Capabilities) (f : Feature) : Bool := caps.bits &&& f.bit != 0

/-- The empty set: only scalar conversions are possible. -/
def none : Capabilities := ⟨0, by decide⟩

/-- The set with one more feature. -/
def insert (caps : Capabilities) (f : Feature) : Capabilities where
  bits := caps.bits ||| f.bit
  bits_lt := by
    rw [UInt16.toNat_or]
    exact @Nat.or_lt_two_pow _ _ 11 caps.bits_lt f.bit_lt

def ofList (features : List Feature) : Capabilities := features.foldl insert none

/-- The members, in the order of `Feature.all`. -/
def toList (caps : Capabilities) : List Feature := Feature.all.filter caps.has

/-- The first of the required features that is missing. -/
def missing? (caps : Capabilities) (required : List Feature) : Option Feature :=
  required.find? fun f => !caps.has f

def supports (caps : Capabilities) (required : List Feature) : Bool :=
  (caps.missing? required).isNone

/-- The set without the disabled features. -/
def restrict (caps : Capabilities) (disabled : List Feature) : Capabilities where
  bits := caps.bits &&& ~~~(ofList disabled).bits
  bits_lt := by
    rw [UInt16.toNat_and]
    exact Nat.lt_of_le_of_lt Nat.and_le_left caps.bits_lt

/-- The features named in a list separated by commas.  Blank pieces are skipped, and
the first piece that is no name is reported as it was written. -/
def parseNames (names : String) : Except Error (List Feature) :=
  ((Text.pieces ',' names.toList).filter fun piece => !(Text.trim piece).isEmpty).mapM
    fun piece =>
      match Feature.ofName? piece with
      | some f => .ok f
      | .none => .error (.unknownFeature (String.ofList piece))

/-- The set without the features named in a list separated by commas. -/
def restrictByNames (caps : Capabilities) (names : String) : Except Error Capabilities :=
  (parseNames names).map caps.restrict

/-- The members' names, or that there are none. -/
def describe (caps : Capabilities) : String :=
  if caps.toList.isEmpty then "scalar only" else " ".intercalate (caps.toList.map Feature.name)

/-! ### Members -/

section

variable {caps a b : Capabilities} {f g : Feature}

theorem has_eq_getLsbD (caps : Capabilities) (f : Feature) :
    caps.has f = caps.bits.toBitVec.getLsbD f.ctorIdx := by
  have hbit : BitVec.twoPow 16 f.ctorIdx ≠ 0#16 := by cases f <;> decide
  rw [has, Bool.eq_iff_iff, bne_iff_ne, ne_eq, ← UInt16.toBitVec_inj, UInt16.toBitVec_and,
    f.bit_toBitVec, BitVec.and_twoPow]
  split
  · rename_i h
    exact iff_of_true hbit h
  · rename_i h
    exact iff_of_false (fun hne => hne rfl) h

/-- Sets with the same members are equal. -/
@[ext]
theorem ext (h : ∀ f, a.has f = b.has f) : a = b := by
  obtain ⟨bits, hbits⟩ := a
  obtain ⟨bits', hbits'⟩ := b
  simp only [mk.injEq]
  refine UInt16.toBitVec_inj.mp (BitVec.eq_of_getLsbD_eq fun i _ => ?_)
  rcases Nat.lt_or_ge i Feature.all.length with hi | hi
  · obtain ⟨f, rfl⟩ := Feature.exists_ctorIdx_eq hi
    have hf := h f
    rwa [has_eq_getLsbD, has_eq_getLsbD] at hf
  · -- neither has a bit past those of the features
    have hpow : 0x800 ≤ 2 ^ i := Nat.pow_le_pow_right (by decide : 2 > 0) hi
    exact (Nat.testBit_lt_two_pow (Nat.lt_of_lt_of_le hbits hpow)).trans
      (Nat.testBit_lt_two_pow (Nat.lt_of_lt_of_le hbits' hpow)).symm

@[simp]
theorem has_none (f : Feature) : none.has f = false := by cases f <;> rfl

@[simp]
theorem has_insert : (caps.insert g).has f = (caps.has f || g == f) := by
  rw [has_eq_getLsbD, has_eq_getLsbD, insert, UInt16.toBitVec_or, BitVec.getLsbD_or,
    g.bit_toBitVec, BitVec.getLsbD_twoPow, decide_eq_true g.ctorIdx_lt, Bool.true_and]
  congr 1
  rw [Bool.eq_iff_iff, decide_eq_true_iff, beq_iff_eq, Feature.ctorIdx_inj]

theorem has_foldl_insert (features : List Feature) (caps : Capabilities) :
    (features.foldl insert caps).has f = (caps.has f || features.contains f) := by
  induction features generalizing caps with
  | nil => rw [List.foldl_nil, List.contains_nil, Bool.or_false]
  | cons g features ih =>
    rw [List.foldl_cons, ih, has_insert, List.contains_cons, Bool.or_assoc, BEq.comm]

@[simp]
theorem has_ofList (features : List Feature) : (ofList features).has f = features.contains f := by
  rw [ofList, has_foldl_insert, has_none, Bool.false_or]

@[simp]
theorem has_restrict (disabled : List Feature) :
    (caps.restrict disabled).has f = (caps.has f && !disabled.contains f) := by
  rw [← has_ofList, has_eq_getLsbD, has_eq_getLsbD, has_eq_getLsbD, restrict, UInt16.toBitVec_and,
    UInt16.toBitVec_not, BitVec.getLsbD_and, BitVec.getLsbD_not, decide_eq_true f.ctorIdx_lt,
    Bool.true_and]

end

end Capabilities

end Lanewise

/-
Lanewise/Proofs/Restriction.lean

What runs of restrictions leave of a set of features.

A `Restriction` is a list of features to mask, or a text that names them.  Whether it can be
read does not depend on the set that it is applied to (`Restriction.apply_eq_ok_iff`), and one
that cannot be read keeps the set.  So all that a run leaves behind is which lists it masked:

    (caps.run steps).has f  ↔  caps.has f, and no list that the steps mask contains f

(`has_run_iff`).  In which order the lists came and how often each of them did cannot be told
from the result, since sets with the same members are one word.

What can be asked of a set depends on its members alone (`ActsAsSet`), and a run only takes
members away, so what is not supported at one point is not supported later.
-/
import Lanewise.Proofs.Contract
import Lanewise.Proofs.Masking

namespace Lanewise

/-- A request to mask features of a set. -/
inductive Restriction where
  | features (disabled : List Feature)
  | names (text : String)

namespace Restriction

/-- What is left of a set, if the request can be read. -/
def apply (caps : Capabilities) : Restriction → Except Error Capabilities
  | features disabled => .ok (caps.restrict disabled)
  | names text => caps.restrictByNames text

/-- The set after the request.  A request that fails keeps the set. -/
def next (caps : Capabilities) (step : Restriction) : Capabilities :=
  match step.apply caps with
  | .ok rest => rest
  | .error _ => caps

/-- The features that the request masks, if it can be read. -/
def disabled : Restriction → Except Error (List Feature)
  | features disabled => .ok disabled
  | names text => Capabilities.parseNames text

variable {caps c : Capabilities} {step : Restriction} {f : Feature}

theorem apply_eq_ok_iff :
    step.apply caps = .ok c ↔ ∃ list, step.disabled = .ok list ∧ c = caps.restrict list := by
  cases step with
  | features list =>
    constructor
    · intro h
      cases h
      exact ⟨list, rfl, rfl⟩
    · rintro ⟨_, h, rfl⟩
      cases h
      rfl
  | names text => exact Capabilities.restrictByNames_eq_ok_iff

theorem apply_eq_error_iff {e : Error} : step.apply caps = .error e ↔ step.disabled = .error e := by
  cases step with
  | features list => exact ⟨nofun, nofun⟩
  | names text => exact Capabilities.restrictByNames_eq_error_iff

/-- One step takes away what it masks. -/
theorem has_next_iff :
    (next caps step).has f = true ↔
      caps.has f = true ∧ ∀ list, step.disabled = .ok list → f ∉ list := by
  rcases h : step.disabled with e | list
  · rw [next, apply_eq_error_iff.mpr h]
    exact ⟨fun hf => ⟨hf, nofun⟩, And.left⟩
  · rw [next, apply_eq_ok_iff.mpr ⟨list, h, rfl⟩]
    simp only [Capabilities.has_restrict_iff, Except.ok.injEq, forall_eq']

/-- Some of the steps masks the list. -/
def Masked (steps : List Restriction) (list : List Feature) : Prop :=
  ∃ step ∈ steps, step.disabled = .ok list

theorem masked_cons_iff {steps : List Restriction} {list : List Feature} :
    Masked (step :: steps) list ↔ step.disabled = .ok list ∨ Masked steps list :=
  List.exists_mem_cons_iff _ _ _

end Restriction

namespace Capabilities

open Restriction

variable {caps : Capabilities} {f : Feature} {required : List Feature}

/-! ### Runs -/

/-- The set after some steps. -/
def run (caps : Capabilities) (steps : List Restriction) : Capabilities := steps.foldl next caps

/-- A run takes away what its steps mask, and nothing else. -/
theorem has_run_iff {steps : List Restriction} :
    (caps.run steps).has f = true ↔ caps.has f = true ∧ ∀ list, Masked steps list → f ∉ list := by
  -- for any set, since the rest of the run starts at what the first step leaves
  induction steps generalizing caps with
  | nil => exact ⟨fun hf => ⟨hf, fun _ ⟨_, hstep, _⟩ => absurd hstep List.not_mem_nil⟩, And.left⟩
  | cons step steps ih =>
    have hcons : caps.run (step :: steps) = (next caps step).run steps := rfl
    simp only [hcons, ih, has_next_iff, masked_cons_iff, or_imp, forall_and, and_assoc]

/-- What later steps leave was there before them. -/
theorem has_of_has_run {before later : List Restriction} (hlater : before <+: later)
    (hf : (caps.run later).has f = true) : (caps.run before).has f = true := by
  obtain ⟨hmember, hkept⟩ := has_run_iff.mp hf
  refine has_run_iff.mpr ⟨hmember, fun list ⟨step, hstep, hlist⟩ => ?_⟩
  exact hkept list ⟨step, hlater.subset hstep, hlist⟩

theorem run_congr {steps steps' : List Restriction}
    (h : ∀ list, Masked steps' list ↔ Masked steps list) : caps.run steps' = caps.run steps := by
  refine Capabilities.ext fun f => ?_
  rw [Bool.eq_iff_iff, has_run_iff, has_run_iff]
  simp only [h]

/-! ### Questions to a set -/

theorem has_ofList_iff {features : List Feature} :
    (ofList features).has f = true ↔ f ∈ features := by
  rw [has_ofList, List.contains_iff_mem]

theorem mem_toList : f ∈ caps.toList ↔ caps.has f = true := by
  rw [toList, List.mem_filter]
  exact and_iff_right f.mem_all

theorem ofList_toList (caps : Capabilities) : ofList caps.toList = caps := by
  refine Capabilities.ext fun f => ?_
  rw [Bool.eq_iff_iff, has_ofList_iff, mem_toList]

theorem supports_iff_missing? : caps.supports required = true ↔ caps.missing? required = .none :=
  Option.isNone_iff_eq_none

/-- The members are listed once each and in their order, and make the set again; what is missing is
the first required feature that is no member. -/
structure ActsAsSet (caps : Capabilities) : Prop where
  sublist : caps.toList.Sublist Feature.all
  nodup : caps.toList.Nodup
  mem_iff : ∀ f, f ∈ caps.toList ↔ caps.has f = true
  ofList_eq : ofList caps.toList = caps
  missing : ∀ required f, caps.missing? required = some f ↔ ∃ before after,
    required = before ++ f :: after ∧ (∀ g ∈ before, caps.has g = true) ∧ caps.has f = false
  complete : ∀ required, caps.missing? required = .none ↔ ∀ f ∈ required, caps.has f = true
  supports_iff : ∀ required, caps.supports required = true ↔ caps.missing? required = .none

theorem actsAsSet (caps : Capabilities) : caps.ActsAsSet where
  sublist := List.filter_sublist
  nodup := List.Nodup.filter _ (by decide)
  mem_iff _ := mem_toList
  ofList_eq := caps.ofList_toList
  missing _ _ := missing?_eq_some_iff
  complete _ := missing?_eq_none_iff
  supports_iff _ := supports_iff_missing?

/-- **Sets of features over runs of restrictions.**  From a list of features, a run of any steps
leaves those features of the list that are in none of the lists masked meanwhile.  Steps that
mask the same lists leave the same set, in whatever order and however often they do.  At every
point of the run the set acts as the set of its members, and what is supported at a later point
is supported at an earlier one. -/
theorem run_as_set (features : List Feature) (steps : List Restriction) :
    (∀ f, ((ofList features).run steps).has f = true ↔
      f ∈ features ∧ ∀ list, Masked steps list → f ∉ list) ∧
    (∀ steps', (∀ list, Masked steps' list ↔ Masked steps list) →
      (ofList features).run steps' = (ofList features).run steps) ∧
    (∀ before, before <+: steps → ((ofList features).run before).ActsAsSet) ∧
    ∀ before later, before <+: later → later <+: steps → ∀ required,
      ((ofList features).run later).supports required = true →
        ((ofList features).run before).supports required = true := by
  refine ⟨fun f => ?_, fun steps' h => run_congr h, fun before _ => actsAsSet _, ?_⟩
  · rw [has_run_iff, has_ofList_iff]
  · intro before later hlater _ required hsupports
    rw [supports_iff_missing?, missing?_eq_none_iff] at hsupports ⊢
    exact fun f hf => has_of_has_run hlater (hsupports f hf)

/-- A list that cannot be read, another order and a repeated step make no difference. -/
theorem run_as_set_reordered :
    (ofList [.avx2, .f16c, .sse41]).run
        [.features [.f16c], .names "avx9000", .names " F16C,,sse41"] = ofList [.avx2] ∧
      (ofList [.avx2, .f16c, .sse41]).run
        [.names " F16C,,sse41", .features [.f16c], .features [.f16c]] = ofList [.avx2] ∧
      (ofList [.avx2, .f16c, .sse41]).supports [.avx2] = true := by
  have hunread : (names "avx9000").disabled = .error (.unknownFeature "avx9000") := by decide
  have hrun : (ofList [.avx2, .f16c, .sse41]).run
      [.features [.f16c], .names "avx9000", .names " F16C,,sse41"] = ofList [.avx2] := by decide
  obtain ⟨-, hsame, -, hearlier⟩ := run_as_set [.avx2, .f16c, .sse41]
    [.features [.f16c], .names "avx9000", .names " F16C,,sse41"]
  refine ⟨hrun, (hsame _ fun list => ?_).trans hrun,
    hearlier [] _ List.nil_prefix (List.prefix_refl _) [.avx2] ?_⟩
  · simp only [masked_cons_iff, hunread, reduceCtorEq, false_or]
    tauto
  · rw [hrun]
    decide

end Capabilities

end Lanewise

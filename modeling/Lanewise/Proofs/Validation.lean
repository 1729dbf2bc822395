/-
Lanewise/Proofs/Validation.lean

What trying a kernel can come to.

The reference data, once made, are always the same (`ReferenceSet.standard`), so what a
kernel does on them is a value: its count (`Kernel.trialCount`) and the destination that
the trial leaves (`Kernel.trialConverted`).  `Kernel.verdict` is what follows from them.
Validation is a check of features, one request for memory, and that verdict
(`validateKernel_of_granted`).

The verdict is a fault for two kinds of kernels and no others: those that report more
elements than there are, and those whose blocks have no elements (`Kernel.Harmful`,
`Kernel.verdict_fault_iff`).
-/
import Lanewise.Validation
import Lanewise.Proofs.Buffers

namespace Lanewise

/-! ### Requests for memory -/

namespace Host

/-- The host after some more requests for pages. -/
def asked (host : Host) (n : Nat) : Host := { host with requested := host.requested + n }

theorem denies_reference (host : Host) :
    host.denies referenceBytes pageAlignment = host.refuses host.requested := rfl

/-- Of the next requests all are granted, or some is refused. -/
theorem granted_or_refused (host : Host) (n : Nat) :
    (∀ i < n, host.refuses (host.requested + i) = false) ∨
      ∃ i < n, host.refuses (host.requested + i) = true := by
  by_cases hrefused : ∃ i < n, host.refuses (host.requested + i) = true
  · exact .inr hrefused
  · refine .inl fun i hi => ?_
    rw [Bool.eq_false_iff]
    intro htrue
    exact hrefused ⟨i, hi, htrue⟩

end Host

/-- The error of a refused reference buffer. -/
def refusal : Error := .allocation referenceBytes Host.pageAlignment "allocator returned null"

namespace AlignedBuffer

theorem size_reference (e : Element) : referenceBytes / e.width * e.width = referenceBytes := by
  cases e <;> rfl

theorem accepted_reference (e : Element) :
    Accepted e (referenceBytes / e.width) Host.pageAlignment where
  aligned := by cases e <;> decide
  size_lt := by cases e <;> decide
  possible := isLayout_iff.mp (by cases e <;> decide)

theorem size_reference_ne_zero (e : Element) : referenceBytes / e.width * e.width ≠ 0 := by
  rw [size_reference]
  decide

variable {e : Element} {host : Host}

theorem allocator_reference {null : Bool} (h : host.refuses host.requested = null) :
    Host.allocator (referenceBytes / e.width * e.width) Host.pageAlignment host
      = (null, host.asked 1) := by
  rw [size_reference]
  exact Prod.ext ((Host.denies_reference host).trans h) rfl

theorem zeroed_of_granted (h : host.refuses host.requested = false) :
    zeroed e (referenceBytes / e.width) Host.pageAlignment host
      = .ok ⟨Array.replicate (referenceBytes / e.width) e.zero, Host.pageAlignment⟩
          (host.asked 1) :=
  zeroedFrom_of_outcome
    (.granted _ (accepted_reference e) (size_reference_ne_zero e) (allocator_reference h))

theorem zeroed_of_refused (h : host.refuses host.requested = true) :
    zeroed e (referenceBytes / e.width) Host.pageAlignment host
      = .error (.error refusal) (host.asked 1) := by
  have hnull := zeroedFrom_of_outcome
    (.null _ (accepted_reference e) (size_reference_ne_zero e) (allocator_reference h))
  rwa [size_reference] at hnull

theorem moves_zeroed {P : Kernel → Prop} (length alignment : Nat) :
    Moves (Host.Grows P) (zeroed e length alignment) := by
  refine Moves.bind (Session.moves_check _) fun size => ?_
  split_ifs
  · exact Moves.bind (Session.moves_check _) fun _ => Moves.pure _
  · exact Moves.bind (Session.moves_allocate size alignment) fun _ => Moves.pure _

end AlignedBuffer

/-! ### The reference data -/

namespace ReferenceSet

/-- The reference buffers as they are made. -/
def standard : ReferenceSet where
  floats := ⟨referenceFloats, Host.pageAlignment⟩
  halves := ⟨referenceData .u16, Host.pageAlignment⟩
  bytes := ⟨referenceData .u8, Host.pageAlignment⟩

variable {host : Host}

/-- Three granted requests give the reference data. -/
theorem make_of_granted (h : ∀ i < 3, host.refuses (host.requested + i) = false) :
    make host = .ok standard (host.asked 3) := by
  have h0 : host.refuses host.requested = false := h 0 (by decide)
  have h1 : (host.asked 1).refuses (host.asked 1).requested = false := h 1 (by decide)
  have h2 : ((host.asked 1).asked 1).refuses ((host.asked 1).asked 1).requested = false :=
    h 2 (by decide)
  rw [make, run_bind_of_ok (AlignedBuffer.zeroed_of_granted h0),
    run_bind_of_ok (AlignedBuffer.zeroed_of_granted h1)]
  exact run_bind_of_ok (AlignedBuffer.zeroed_of_granted h2)

/-- The first refused request ends the making. -/
theorem make_of_refused (h : ∃ i < 3, host.refuses (host.requested + i) = true) :
    ∃ n ≤ 3, make host = .error (.error refusal) (host.asked n) := by
  -- the requests come one by one, and the first one refused is the last one made
  cases h0 : host.refuses host.requested with
  | true => exact ⟨1, by decide, run_bind_of_error (AlignedBuffer.zeroed_of_refused h0)⟩
  | false =>
    rw [make, run_bind_of_ok (AlignedBuffer.zeroed_of_granted h0)]
    cases h1 : (host.asked 1).refuses (host.asked 1).requested with
    | true => exact ⟨2, by decide, run_bind_of_error (AlignedBuffer.zeroed_of_refused h1)⟩
    | false =>
      rw [run_bind_of_ok (AlignedBuffer.zeroed_of_granted h1)]
      have h2 : (host.asked 2).refuses (host.asked 2).requested = true := by
        obtain ⟨i, hi, hrefused⟩ := h
        interval_cases i
        · rw [Nat.add_zero, h0] at hrefused
          cases hrefused
        · exact absurd (hrefused.symm.trans h1) Bool.true_eq_false.mp
        · exact hrefused
      exact ⟨3, le_rfl, run_bind_of_error (AlignedBuffer.zeroed_of_refused h2)⟩

/-- There is one way for the making to succeed and one to fail. -/
theorem make_cases (host : Host) :
    (∃ host', make host = .ok standard host') ∨
      ∃ host', make host = .error (.error refusal) host' := by
  rcases host.granted_or_refused 3 with hgranted | hrefused
  · exact .inl ⟨_, make_of_granted hgranted⟩
  · obtain ⟨n, -, hmake⟩ := make_of_refused hrefused
    exact .inr ⟨_, hmake⟩

theorem make_eq_standard {fixture : ReferenceSet} {host' : Host}
    (h : make host = .ok fixture host') : fixture = standard := by
  rcases make_cases host with ⟨host₁, hmake⟩ | ⟨host₁, hmake⟩
  · rw [hmake] at h
    cases h
    rfl
  · rw [hmake] at h
    cases h

theorem moves_make {P : Kernel → Prop} : Moves (Host.Grows P) make :=
  Moves.bind (AlignedBuffer.moves_zeroed _ _) fun _ =>
    Moves.bind (AlignedBuffer.moves_zeroed _ _) fun _ =>
      Moves.bind (AlignedBuffer.moves_zeroed _ _) fun _ => Moves.pure _

end ReferenceSet

/-! ### Trying a kernel -/

/-- The elements that are converted to try a direction. -/
def trialSource (d : Direction) : Array d.Source :=
  (ReferenceSet.standard.data d.source).extract 0 referenceLength

theorem referenceLength_le (e : Element) : referenceLength ≤ referenceBytes / e.width := by
  cases e <;> decide

theorem standard_data (e : Element) : ReferenceSet.standard.data e = referenceData e := by
  cases e with
  | f32 => rw [ReferenceSet.data, ReferenceSet.standard, referenceFloats]
  | u16 => rw [ReferenceSet.data, ReferenceSet.standard]
  | u8 => rw [ReferenceSet.data, ReferenceSet.standard]

theorem size_referenceData (e : Element) :
    (referenceData e).size = referenceBytes / e.width := by
  rw [referenceData, Array.size_append, Array.size_map, Array.size_range, Array.size_replicate,
    Nat.add_sub_cancel' (referenceLength_le e)]

theorem size_trialSource (d : Direction) : (trialSource d).size = referenceLength := by
  rw [trialSource, standard_data, Array.size_extract, size_referenceData, Nat.sub_zero,
    Nat.min_eq_left (referenceLength_le d.source)]

/-- The destination of a trial as it is made. -/
def zeros (d : Direction) : Array d.Target :=
  Array.replicate (referenceBytes / d.target.width) d.target.zero

/-- The part of the destination that the trial converts into. -/
def trialTarget (d : Direction) : Array d.Target := Array.replicate referenceLength d.target.zero

theorem extract_zeros (d : Direction) : (zeros d).extract 0 referenceLength = trialTarget d := by
  rw [zeros, Array.extract_replicate, Nat.sub_zero, Nat.min_eq_left (referenceLength_le d.target),
    trialTarget]

theorem size_trialTarget (d : Direction) : (trialSource d).size = (trialTarget d).size := by
  rw [size_trialSource, trialTarget, Array.size_replicate]

namespace Kernel

/-- What the kernel leaves and reports on the reference data. -/
def trial (k : Kernel) : Array k.direction.Target × Nat :=
  let (out, count) := k.func ⟨trialSource k.direction, rfl⟩
    ⟨trialTarget k.direction, (size_trialTarget k.direction).symm⟩
  (out.toArray, count)

/-- How many elements the kernel reports on the reference data. -/
def trialCount (k : Kernel) : Nat := k.trial.2

/-- The elements of the trial after the scalar conversion of the tail. -/
def trialConverted (k : Kernel) : Array k.direction.Target :=
  Slice.splice k.trial.1 k.trialCount
    (((trialSource k.direction).extract k.trialCount (trialSource k.direction).size).map
      k.direction.scalar)

/-- The checksum of the trial's whole destination. -/
def trialChecksum (k : Kernel) : UInt32 :=
  checksum k.direction.target (Slice.splice (zeros k.direction) 0 k.trialConverted)

/-- What validation says of a kernel that it may call. -/
def verdict (k : Kernel) : Except Stop Unit :=
  if referenceLength < k.trialCount then
    .error (.fault (.rangeStart k.trialCount referenceLength))
  else if k.block = 0 then .error (.fault .zeroDivisor)
  else if k.trialCount ≠ Loop.reach k.block referenceLength then
    .error (.error (.granularity k.name k.trialCount (Loop.reach k.block referenceLength)))
  else if k.trialChecksum ≠ expectedChecksum k.direction then
    .error (.error
      (.checksumMismatch k.name (expectedChecksum k.direction) k.trialChecksum))
  else .ok ()

/-! ### The trial's conversion -/

variable {k : Kernel} {host : Host}

theorem invoke_trial (k : Kernel) :
    k.invoke k.direction (trialSource k.direction) { dst := trialTarget k.direction }
      = .ok k.trialCount ⟨k.trial.1, #[k]⟩ := by
  have hsize := size_trialTarget k.direction
  rw [invoke_run rfl hsize]
  exact dif_pos hsize.symm

theorem size_trial (k : Kernel) : k.trial.1.size = (trialSource k.direction).size :=
  Vector.size_toArray _

theorem convertWith_trial (h : k.trialCount ≤ referenceLength) :
    convertWith (some k) k.direction (trialSource k.direction) { dst := trialTarget k.direction }
      = .ok k.trialCount ⟨k.trialConverted, #[k]⟩ := by
  have hcount : k.trialCount ≤ (trialSource k.direction).size := by
    rwa [size_trialSource]
  have htail := convertTail_run (w := ⟨k.trial.1, #[k]⟩) hcount (size_trial k).symm
  rw [convertWith_some_run (size_trialTarget k.direction) (invoke_trial k), run_bind_of_ok htail]
  rfl

theorem convertWith_trial_fault (h : referenceLength < k.trialCount) :
    convertWith (some k) k.direction (trialSource k.direction) { dst := trialTarget k.direction }
      = .error (.fault (.rangeStart k.trialCount referenceLength)) ⟨k.trial.1, #[k]⟩ := by
  have hsize := size_trialTarget k.direction
  have hcount : (trialSource k.direction).size < k.trialCount := by
    rwa [size_trialSource]
  have htail := convertTail_fault (w := ⟨k.trial.1, #[k]⟩) hcount
  rw [size_trialSource] at htail
  rw [convertWith_some_run hsize (invoke_trial k), run_bind_of_error htail]

end Kernel

/-! ### Validation -/

/-- The host after a granted request and a call. -/
def Host.tried (host : Host) (k : Kernel) : Host :=
  { host.asked 1 with journal := host.journal ++ #[k].map Event.called }

section

variable {k : Kernel} {caps : Capabilities} {host : Host}

theorem trial_eq (d : Direction) (kernel? : Option Kernel) :
    ReferenceSet.standard.trial d kernel?
      = AlignedBuffer.zeroed d.target (referenceBytes / d.target.width) Host.pageAlignment >>=
        fun dst => Session.convertInto dst.data
          (Converting.within 0 referenceLength (convertWith kernel? d (trialSource d))) >>=
        fun r => pure (checksum d.target r.1, r.2) := rfl

theorem trial_of_refused {d : Direction} {kernel? : Option Kernel}
    (h : host.refuses host.requested = true) :
    ReferenceSet.standard.trial d kernel? host = .error (.error refusal) (host.asked 1) :=
  run_bind_of_error (AlignedBuffer.zeroed_of_refused h)

/-- The conversion of a trial ends as it does on the part that it works on. -/
theorem convertInto_trial (k : Kernel) (host : Host) :
    Session.convertInto (zeros k.direction) (Converting.within 0 referenceLength
        (convertWith (some k) k.direction (trialSource k.direction))) host
      = match convertWith (some k) k.direction (trialSource k.direction)
            { dst := trialTarget k.direction } with
        | .ok count w => .ok (Slice.splice (zeros k.direction) 0 w.dst, count)
            { host with journal := host.journal ++ w.calls.map Event.called }
        | .error s w => .error s
            { host with journal := host.journal ++ w.calls.map Event.called } := by
  rw [Session.convertInto, Converting.within, extract_zeros]
  rcases convertWith (some k) k.direction (trialSource k.direction)
    { dst := trialTarget k.direction } with ⟨count, w⟩ | ⟨s, w⟩
  · rfl
  · rfl

/-- Without a fault, the trial gives the checksum and the count. -/
theorem trial_of_le (h : host.refuses host.requested = false)
    (hcount : k.trialCount ≤ referenceLength) :
    ReferenceSet.standard.trial k.direction (some k) host
      = .ok (k.trialChecksum, k.trialCount) (host.tried k) := by
  have hinto := convertInto_trial k (host.asked 1)
  rw [Kernel.convertWith_trial hcount] at hinto
  rw [trial_eq, run_bind_of_ok (AlignedBuffer.zeroed_of_granted h)]
  refine (run_bind_of_ok hinto).trans ?_
  rw [Kernel.trialChecksum]
  rfl

/-- A count past the end ends the trial. -/
theorem trial_of_lt (h : host.refuses host.requested = false)
    (hcount : referenceLength < k.trialCount) :
    ReferenceSet.standard.trial k.direction (some k) host
      = .error (.fault (.rangeStart k.trialCount referenceLength)) (host.tried k) := by
  have hinto := convertInto_trial k (host.asked 1)
  rw [Kernel.convertWith_trial_fault hcount] at hinto
  rw [trial_eq, run_bind_of_ok (AlignedBuffer.zeroed_of_granted h)]
  exact run_bind_of_error hinto

/-- A kernel that lacks a feature is refused before it is called. -/
theorem validateKernel_of_missing {missing : Feature} {fixture : ReferenceSet}
    (h : caps.missing? k.requires = some missing) :
    validateKernel k caps fixture host
      = .error (.error (.unsupportedKernel k.name missing)) host := by
  rw [validateKernel, h]
  rfl

theorem permits_of_validateKernel {fixture : ReferenceSet} {host' : Host}
    (h : validateKernel k caps fixture host = .ok () host') : caps.Permits k := by
  rcases hmissing : caps.missing? k.requires with _ | missing
  · exact Capabilities.permits_iff_missing?.mpr hmissing
  · rw [validateKernel_of_missing hmissing] at h
    cases h

theorem validateKernel_of_refused (hcaps : caps.missing? k.requires = none)
    (h : host.refuses host.requested = true) :
    validateKernel k caps .standard host = .error (.error refusal) (host.asked 1) := by
  rw [validateKernel, hcaps]
  exact run_bind_of_error (trial_of_refused h)

/-- What the verdict means for a run. -/
def Kernel.judged (k : Kernel) (host : Host) : EStateM.Result Stop Host Unit :=
  match k.verdict with
  | .ok () => .ok () host
  | .error s => .error s host

/-- **A supported kernel gets its verdict**, if memory is granted. -/
theorem validateKernel_of_granted (hcaps : caps.missing? k.requires = none)
    (h : host.refuses host.requested = false) :
    validateKernel k caps .standard host = k.judged (host.tried k) := by
  rw [validateKernel, hcaps, Kernel.judged, Kernel.verdict]
  -- the tail is cut off at the count before anything is compared
  rcases Nat.lt_or_ge referenceLength k.trialCount with hlt | hle
  · rw [if_pos hlt]
    exact run_bind_of_error (trial_of_lt h hlt)
  · rw [if_neg (Nat.not_lt.mpr hle)]
    refine (run_bind_of_ok (trial_of_le h hle)).trans ?_
    -- the remainder by the block is taken before the count is compared
    by_cases hblock : k.block = 0
    · simp only [hblock, if_true]
      rfl
    · simp only [hblock, if_false]
      by_cases hcount : k.trialCount = Loop.reach k.block referenceLength
      · rw [if_neg (not_not.mpr hcount), if_neg (not_not.mpr hcount)]
        by_cases hsum : k.trialChecksum = expectedChecksum k.direction
        · rw [if_neg (not_not.mpr hsum), if_neg (not_not.mpr hsum)]
          rfl
        · rw [if_pos hsum, if_pos hsum]
          rfl
      · rw [if_pos hcount, if_pos hcount]
        rfl

/-! ### Calls of a trial -/

theorem moves_trial {P : Kernel → Prop} (fixture : ReferenceSet) {d : Direction}
    {kernel? : Option Kernel} (h : ∀ k, kernel? = some k → P k) :
    Moves (Host.Grows P) (fixture.trial d kernel?) := by
  refine Moves.bind (AlignedBuffer.moves_zeroed _ _) fun dst => Moves.bind ?_ fun _ => Moves.pure _
  exact Session.moves_convertInto (moves_within (moves_convertWith h _) 0 referenceLength) dst.data

/-- Validation calls no kernel that the processor does not support. -/
theorem moves_validateKernel (k : Kernel) (caps : Capabilities) (fixture : ReferenceSet) :
    Moves (Host.Grows caps.Permits) (validateKernel k caps fixture) := by
  rcases hmissing : caps.missing? k.requires with _ | missing
  · have hsupports := Capabilities.permits_iff_missing?.mpr hmissing
    rw [validateKernel, hmissing]
    refine Moves.bind (moves_trial fixture ?_) fun r => ?_
    · rintro k' ⟨⟩
      exact hsupports
    · exact Moves.throwIf _ (Moves.throwIf _ (Moves.ite (Moves.throw _) (Moves.pure _)))
  · intro host
    rw [validateKernel_of_missing hmissing]
    exact refl_of _ host

/-! ### Faults and rejections -/

/-- Kernels that validation cannot call and then reject. -/
def Kernel.Harmful (k : Kernel) : Prop := referenceLength < k.trialCount ∨ k.block = 0

/-- The errors with which a kernel is rejected. -/
inductive Kernel.Rejection (k : Kernel) (caps : Capabilities) : Error → Prop where
  | unsupported {missing : Feature} (h : caps.missing? k.requires = some missing) :
    k.Rejection caps (.unsupportedKernel k.name missing)
  | refused : k.Rejection caps refusal
  | granularity (h : k.trialCount ≠ Loop.reach k.block referenceLength) :
    k.Rejection caps (.granularity k.name k.trialCount (Loop.reach k.block referenceLength))
  | checksum (h : k.trialChecksum ≠ expectedChecksum k.direction) :
    k.Rejection caps (.checksumMismatch k.name (expectedChecksum k.direction) k.trialChecksum)

theorem Kernel.verdict_fault_iff {k : Kernel} :
    (∃ f, k.verdict = .error (.fault f)) ↔ k.Harmful := by
  rw [Harmful, verdict]
  split_ifs with hlong hblock hcount hsum
  · exact ⟨fun _ => .inl hlong, fun _ => ⟨_, rfl⟩⟩
  · exact ⟨fun _ => .inr hblock, fun _ => ⟨_, rfl⟩⟩
  · exact ⟨fun ⟨_, h⟩ => (nomatch h), fun h => absurd h (not_or.mpr ⟨hlong, hblock⟩)⟩
  · exact ⟨fun ⟨_, h⟩ => (nomatch h), fun h => absurd h (not_or.mpr ⟨hlong, hblock⟩)⟩
  · exact ⟨fun ⟨_, h⟩ => (nomatch h), fun h => absurd h (not_or.mpr ⟨hlong, hblock⟩)⟩

theorem Kernel.rejection_of_verdict {e : Error} (h : k.verdict = .error (.error e)) :
    k.Rejection caps e := by
  rw [verdict] at h
  split_ifs at h with hlong hblock hcount hsum
  · cases h
  · cases h
  · cases h
    exact .granularity hcount
  · cases h
    exact .checksum hsum

/-- **Validation faults** exactly where it may call a harmful kernel. -/
theorem validateKernel_fault_iff :
    (∃ f host', validateKernel k caps .standard host = .error (.fault f) host') ↔
      caps.Permits k ∧ host.refuses host.requested = false ∧ k.Harmful := by
  rw [Capabilities.permits_iff_missing?, ← Kernel.verdict_fault_iff]
  rcases hmissing : caps.missing? k.requires with _ | missing
  · cases hrefuses : host.refuses host.requested with
    | true =>
      rw [validateKernel_of_refused hmissing hrefuses]
      constructor
      · rintro ⟨_, _, h⟩
        cases h
      · rintro ⟨_, h, _⟩
        cases h
    | false =>
      rw [validateKernel_of_granted hmissing hrefuses, Kernel.judged]
      rcases hverdict : k.verdict with (e | f) | _
      · constructor
        · rintro ⟨_, _, h⟩
          cases h
        · rintro ⟨_, _, _, h⟩
          cases h
      · exact ⟨fun _ => ⟨rfl, rfl, f, rfl⟩, fun _ => ⟨f, _, rfl⟩⟩
      · constructor
        · rintro ⟨_, _, h⟩
          cases h
        · rintro ⟨_, _, _, h⟩
          cases h
  · rw [validateKernel_of_missing hmissing]
    constructor
    · rintro ⟨_, _, h⟩
      cases h
    · rintro ⟨h, _⟩
      cases h

/-- Every error of validation is one of four. -/
theorem rejection_of_validateKernel {e : Error} {host' : Host}
    (h : validateKernel k caps .standard host = .error (.error e) host') :
    k.Rejection caps e := by
  rcases hmissing : caps.missing? k.requires with _ | missing
  · cases hrefuses : host.refuses host.requested with
    | true =>
      rw [validateKernel_of_refused hmissing hrefuses] at h
      cases h
      exact .refused
    | false =>
      rw [validateKernel_of_granted hmissing hrefuses, Kernel.judged] at h
      rcases hverdict : k.verdict with (e' | f) | _
      · rw [hverdict] at h
        cases h
        exact Kernel.rejection_of_verdict hverdict
      · rw [hverdict] at h
        cases h
      · rw [hverdict] at h
        cases h
  · rw [validateKernel_of_missing hmissing] at h
    cases h
    exact .unsupported hmissing

end

end Lanewise

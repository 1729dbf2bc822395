/-
Lanewise/Proofs/Admission.lean

Which kernels are admitted and chosen where memory is granted.

A kernel that converts its prefix and reports what its blocks fill has a destination like
the scalar one, so its checksum is the recorded one and it passes
(`Kernel.verdict_of_honoursPrefix`), whatever the size of its blocks.  On a host that
refuses nothing, a selection chooses the first candidate that passes
(`withRegistry_of_generous`).  From these two:

  * among compiled kernels the first candidate is chosen, that is the best one
    (`withRegistry_compiled`);
  * with fewer features the choice stays or moves down the candidates, since there are
    fewer of them in the same order (`withRegistry_restrict`).
-/
import Lanewise.Proofs.FirstFit
import Lanewise.Proofs.Preference
import Lanewise.Proofs.Recorded

namespace Lanewise

/-! ### Admission -/

namespace Kernel

variable {k : Kernel}

/-- A kernel that honours the prefix leaves the scalar results, once its tail is converted. -/
theorem trialConverted_of_honoursPrefix (h : k.HonoursPrefix) :
    k.trialConverted = (trialSource k.direction).map k.direction.scalar ∧
      k.trialCount ≤ referenceLength := by
  obtain ⟨out, count, hcall, hout, hcount, hlead⟩ :=
    callFor_run rfl h (w := { dst := trialTarget k.direction }) (size_trialTarget k.direction)
  rw [← invoke_run rfl (size_trialTarget k.direction), invoke_trial] at hcall
  cases hcall
  refine ⟨splice_tail (w := ⟨k.trial.1, #[k]⟩) hcount hout.symm hlead, ?_⟩
  rwa [size_trialSource] at hcount

/-- **Exact kernels pass**, whether or not their blocks fill the reference data. -/
theorem verdict_of_honoursPrefix (hblock : k.block ≠ 0) (h : k.HonoursPrefix)
    (hcount : k.trialCount = Loop.reach k.block referenceLength) : k.verdict = .ok () := by
  obtain ⟨hconverted, hle⟩ := trialConverted_of_honoursPrefix h
  have hsum : k.trialChecksum = expectedChecksum k.direction := by
    rw [trialChecksum, hconverted, checksum_scalar]
  rw [verdict, if_neg (Nat.not_lt.mpr hle), if_neg hblock, if_neg (not_not.mpr hcount),
    if_neg (not_not.mpr hsum)]

theorem trialCount_of_reports {reported : Nat → Nat}
    (h : ∀ (n : Nat) (src : Vector k.direction.Source n) (dst : Vector k.direction.Target n),
      (k.func src dst).2 = reported n) : k.trialCount = reported referenceLength := by
  have hcount : k.trialCount = reported (trialSource k.direction).size := h _ _ _
  rwa [size_trialSource] at hcount

theorem Exact.verdict (hblock : k.block ≠ 0) (h : k.Exact) : k.verdict = .ok () :=
  verdict_of_honoursPrefix hblock h.honoursPrefix
    (trialCount_of_reports fun n src dst => (h n src dst).1)

/-- Whether validation says nothing against a kernel. -/
def passes (k : Kernel) : Bool := k.verdict.isOk

theorem passes_iff : k.passes = true ↔ k.verdict = .ok () := by
  rw [passes]
  rcases k.verdict with s | _
  · constructor
    · intro h
      cases h
    · intro h
      cases h
  · exact ⟨fun _ => rfl, fun _ => rfl⟩

theorem not_harmful_of_verdict (h : k.verdict = .ok ()) : ¬ k.Harmful := by
  rw [← verdict_fault_iff, h]
  rintro ⟨f, hfault⟩
  cases hfault

end Kernel

theorem Registry.block_compiled : ∀ k ∈ Registry.compiled.kernels, k.block ≠ 0 := by
  decide +kernel

theorem Registry.verdict_compiled {k : Kernel} (h : k ∈ Registry.compiled.kernels) :
    k.verdict = .ok () :=
  (compiled_exact h).verdict (block_compiled k h)

theorem Registry.not_harmful_compiled {k : Kernel} (h : k ∈ Registry.compiled.kernels) :
    ¬ k.Harmful :=
  Kernel.not_harmful_of_verdict (verdict_compiled h)

/-! ### Nothing refused -/

/-- The host refuses no request to come. -/
def Host.Generous (host : Host) : Prop := ∀ i, host.requested ≤ i → host.refuses i = false

/-- Where nothing is refused, the first that passes is chosen. -/
theorem FirstFit.eq_find? {caps : Capabilities} {refuses : Nat → Bool} {n : Nat}
    {ks tried : List Kernel} {kernel? : Option Kernel}
    (h : FirstFit caps refuses n ks tried kernel?) (hgranted : ∀ i, n ≤ i → refuses i = false)
    (hcaps : ∀ k ∈ ks, caps.Permits k) : kernel? = ks.find? Kernel.passes := by
  have hverdict : ∀ i, ∀ k ∈ ks, validationAt caps refuses (n + i) k = k.verdict := by
    intro i k hk
    rw [validationAt_eq (hcaps k hk), hgranted _ (Nat.le_add_right n i),
      if_neg Bool.false_ne_true]
  have hfails : ∀ rejected : List Kernel, (∀ k ∈ rejected, k ∈ ks) →
      RejectedFrom caps refuses n rejected → ∀ k ∈ rejected, k.passes = false := by
    intro rejected hsub hrejected k hk
    obtain ⟨i, hi⟩ := List.mem_iff_getElem?.mp hk
    obtain ⟨cause, hcause⟩ := hrejected i k hi
    rw [hverdict i k (hsub k hk)] at hcause
    rw [Kernel.passes, hcause]
    rfl
  symm
  cases h with
  | @chosen rejected untried k hrejected hpasses =>
    have hk : k ∈ rejected ++ k :: untried := List.mem_append_right _ List.mem_cons_self
    rw [hverdict _ k hk] at hpasses
    refine List.find?_eq_some_iff_append.mpr
      ⟨Kernel.passes_iff.mpr hpasses, rejected, untried, rfl, fun b hb => ?_⟩
    rw [hfails rejected (fun b hb => List.mem_append_left _ hb) hrejected b hb]
    rfl
  | scalar hrejected =>
    refine List.find?_eq_none.mpr fun b hb => ?_
    rw [hfails ks (fun _ hb => hb) hrejected b hb]
    exact Bool.false_ne_true

namespace Dispatcher

variable {registry : Registry} {caps : Capabilities} {host : Host}

/-- **A selection where nothing is refused.** -/
theorem withRegistry_of_generous (caps : Capabilities) (registry : Registry)
    (h : ∀ k ∈ registry.kernels, caps.Permits k → ¬ k.Harmful) (hhost : host.Generous) :
    ∃ dispatcher host', withRegistry caps registry host = .ok dispatcher host' ∧
      ∀ d, dispatcher.kernel d = (registry.candidates d caps).find? Kernel.passes := by
  obtain ⟨dispatcher, tried, host', hrun, -, hfits, -⟩ :=
    withRegistry_of_granted h fun i _ => hhost _ (Nat.le_add_right _ i)
  refine ⟨dispatcher, host', hrun, fun d => (hfits d).eq_find? ?_ ?_⟩
  · intro i hi
    exact hhost i (by omega)
  · intro k hk
    obtain ⟨-, hpermits, -⟩ := Registry.mem_candidates.mp hk
    exact hpermits

/-! ### Compiled kernels -/

/-- Where all candidates pass, the best one is chosen. -/
theorem find?_candidates_of_passes (h : ∀ k ∈ registry.kernels, k.passes = true)
    (d : Direction) :
    (registry.candidates d caps).find? Kernel.passes = registry.best d caps := by
  rw [← Registry.candidates_head?, ← List.head?_filter]
  congr 1
  exact List.filter_eq_self.mpr fun k hk => h k (Registry.mem_candidates.mp hk).1

theorem best_eq_none_iff {d : Direction} :
    registry.best d caps = none ↔
      ∀ k ∈ registry.kernels, caps.Permits k → k.direction ≠ d := by
  rw [← Registry.candidates_head?, List.head?_eq_none_iff, List.eq_nil_iff_forall_not_mem]
  constructor
  · intro hnone k hk hcaps hd
    exact hnone k (Registry.mem_candidates.mpr ⟨hk, hcaps, hd⟩)
  · intro hnone k hk
    obtain ⟨hmem, hcaps, hd⟩ := Registry.mem_candidates.mp hk
    exact hnone k hmem hcaps hd

/-- A selection among compiled kernels takes the best one for each direction. -/
theorem withRegistry_best (caps : Capabilities) (registry : Registry)
    (hcompiled : ∀ k ∈ registry.kernels, k ∈ Registry.compiled.kernels) (hhost : host.Generous) :
    ∃ dispatcher host', withRegistry caps registry host = .ok dispatcher host' ∧
      ∀ d, dispatcher.kernel d = registry.best d caps := by
  obtain ⟨dispatcher, host', hrun, hkernel⟩ := withRegistry_of_generous caps registry
    (fun k hk _ => Registry.not_harmful_compiled (hcompiled k hk)) hhost
  have hpasses : ∀ k ∈ registry.kernels, k.passes = true := fun k hk =>
    Kernel.passes_iff.mpr (Registry.verdict_compiled (hcompiled k hk))
  exact ⟨dispatcher, host', hrun, fun d => (hkernel d).trans (find?_candidates_of_passes hpasses d)⟩

/-- **Exact kernels are admitted, and the best compiled one is chosen.**  A kernel that converts
the prefix that its blocks fill and reports it passes, if it is supported and memory is granted.
So a selection among compiled kernels, in any order and with any repetitions, gives each direction
the first preferred one of the widest kernels, or else the first of these. -/
theorem withRegistry_compiled :
    (∀ k : Kernel, k.block ≠ 0 → k.HonoursPrefix →
      (∀ (n : Nat) (src : Vector k.direction.Source n) (dst : Vector k.direction.Target n),
        (k.func src dst).2 = Loop.reach k.block n) →
      ∀ caps : Capabilities, caps.Permits k →
      ∀ start fixture made, ReferenceSet.make start = .ok fixture made →
      ∀ host : Host, host.refuses host.requested = false →
        validateKernel k caps fixture host = .ok () (host.tried k)) ∧
    ∀ (caps : Capabilities) (kernels : List Kernel),
      (∀ k ∈ kernels, k ∈ Registry.compiled.kernels) →
      ∀ host : Host, host.Generous →
        ∃ dispatcher host', withRegistry caps ⟨kernels⟩ host = .ok dispatcher host' ∧
          ∀ d, dispatcher.kernel d = (⟨kernels⟩ : Registry).best d caps ∧
            (dispatcher.kernel d = none ↔
              ∀ k ∈ kernels, caps.Permits k → k.direction ≠ d) := by
  constructor
  · intro k hblock hprefix hcount caps hcaps start fixture made hmake host hgranted
    obtain rfl := ReferenceSet.make_eq_standard hmake
    have hmissing := Capabilities.permits_iff_missing?.mp hcaps
    have hverdict := Kernel.verdict_of_honoursPrefix hblock hprefix
      (Kernel.trialCount_of_reports hcount)
    rw [validateKernel_of_granted hmissing hgranted, Kernel.judged, hverdict]
  · intro caps kernels hcompiled host hhost
    obtain ⟨dispatcher, host', hrun, hkernel⟩ := withRegistry_best caps ⟨kernels⟩ hcompiled hhost
    refine ⟨dispatcher, host', hrun, fun d => ⟨hkernel d, ?_⟩⟩
    rw [hkernel]
    exact best_eq_none_iff

/-- A sample that is exact with blocks of seven. -/
def sevensSample : Kernel :=
  Samples.sample "sevens" Samples.saturating .sse41 [.sse41] 7 1 true Samples.saturating.scalar
    (Loop.reach 7) (Loop.reach 7)

/-- A sample whose blocks leave two elements of the reference data over is admitted.  Of the
compiled kernels in the reverse order, the preferred one of the widest that the processor supports
is chosen. -/
theorem withRegistry_compiled_reverse :
    (referenceLength % sevensSample.block = 2 ∧
      validateKernel sevensSample (.ofList [.sse41]) .standard ((Host.refusing []).asked 3)
        = .ok () (((Host.refusing []).asked 3).tried sevensSample)) ∧
    ∃ dispatcher host',
      withRegistry (.ofList [.sse41, .f16c, .avx2]) ⟨Registry.compiled.kernels.reverse⟩
        (Host.refusing []) = .ok dispatcher host' ∧
      dispatcher.selected .u8ToF32 = "u8_to_f32_4_avx2" := by
  obtain ⟨hadmits, hselects⟩ := withRegistry_compiled
  constructor
  · have hprefix : sevensSample.HonoursPrefix :=
      Samples.sample_honoursPrefix (Loop.reach_le 7) fun _ => le_rfl
    exact ⟨rfl, hadmits sevensSample (by decide) hprefix (fun _ _ _ => rfl) (.ofList [.sse41]) rfl
      (Host.refusing []) _ _ (ReferenceSet.make_of_granted fun _ _ => rfl) _ rfl⟩
  · obtain ⟨dispatcher, host', hrun, hkernel⟩ := hselects (.ofList [.sse41, .f16c, .avx2])
      Registry.compiled.kernels.reverse (fun k hk => List.mem_reverse.mp hk) (Host.refusing [])
      fun _ _ => rfl
    refine ⟨dispatcher, host', hrun, ?_⟩
    rw [selected, (hkernel .u8ToF32).1]
    decide +kernel

/-! ### Fewer features -/

section

variable {α : Type} {p q : α → Bool} {l : List α} {a : α}

/-- What is found stays so if it is kept. -/
theorem find?_filter_of_kept (h : l.find? p = some a) (ha : q a = true) :
    (l.filter q).find? p = some a := by
  obtain ⟨hp, before, after, rfl, hbefore⟩ := List.find?_eq_some_iff_append.mp h
  refine List.find?_eq_some_iff_append.mpr ⟨hp, before.filter q, after.filter q, ?_, ?_⟩
  · rw [List.filter_append, List.filter_cons_of_pos ha]
  · exact fun b hb => hbefore b (List.mem_filter.mp hb).1

/-- If it is dropped, something after it is found, or nothing. -/
theorem find?_filter_of_dropped (h : l.find? p = some a) (ha : q a = false) :
    (l.filter q).find? p = none ∨ ∃ b before between after,
      (l.filter q).find? p = some b ∧ l = before ++ a :: (between ++ b :: after) ∧
        b ∉ before ∧ b ≠ a := by
  obtain ⟨hp, before, rest, rfl, hbefore⟩ := List.find?_eq_some_iff_append.mp h
  have hnone : (before.filter q).find? p = none := by
    refine List.find?_eq_none.mpr fun b hb => ?_
    have hb' := hbefore b (List.mem_filter.mp hb).1
    rwa [Bool.not_eq_true', ← Bool.not_eq_true] at hb'
  have hskip : ((before ++ a :: rest).filter q).find? p = (rest.filter q).find? p := by
    rw [List.filter_append, List.filter_cons_of_neg (by rw [ha]; exact Bool.false_ne_true),
      List.find?_append, hnone, Option.none_or]
  rw [hskip]
  rcases hfind : (rest.filter q).find? p with _ | b
  · exact .inl rfl
  · have hb : p b = true := List.find?_some hfind
    obtain ⟨hmem, hq⟩ := List.mem_filter.mp (List.mem_of_find?_eq_some hfind)
    obtain ⟨between, after, rfl⟩ := List.append_of_mem hmem
    refine .inr ⟨b, before, between, after, rfl, rfl, fun hb' => ?_, ?_⟩
    · have hfail := hbefore b hb'
      rw [hb] at hfail
      cases hfail
    · rintro rfl
      rw [ha] at hq
      cases hq

end

/-- A later candidate has no wider registers. -/
theorem width_le_of_later {d : Direction} {k k' : Kernel} {before between after : List Kernel}
    (h : registry.candidates d caps = before ++ k :: (between ++ k' :: after)) :
    k'.isa.width ≤ k.isa.width := by
  have hsorted := List.pairwise_mergeSort Registry.preferable_trans Registry.preferable_total
    ((registry.admissible caps).filter (·.direction == d))
  rw [← Registry.candidates, h] at hsorted
  have hlater := (List.pairwise_cons.mp (List.pairwise_append.mp hsorted).2.1).1 k'
    (List.mem_append_right _ List.mem_cons_self)
  rcases Registry.preferable_iff.mp hlater with hless | ⟨hsame, -⟩
  · exact hless.le
  · exact hsame.ge

/-- **Masking features degrades a selection** and never improves it.  A direction keeps its kernel
if that is still supported, goes to a later candidate or to the scalar conversion if not, and
stays with the scalar conversion if it is there. -/
theorem withRegistry_restrict (h : ∀ k ∈ registry.kernels, ¬ k.Harmful) (disabled : List Feature)
    {host₁ host₂ : Host} (hhost₁ : host₁.Generous) (hhost₂ : host₂.Generous) :
    ∃ full host₁' masked host₂', withRegistry caps registry host₁ = .ok full host₁' ∧
      withRegistry (caps.restrict disabled) registry host₂ = .ok masked host₂' ∧
      ∀ d, (full.kernel d = none → masked.kernel d = none) ∧
        ∀ k, full.kernel d = some k →
          ((caps.restrict disabled).Permits k → masked.kernel d = some k) ∧
          (¬ (caps.restrict disabled).Permits k → masked.kernel d = none ∨
            ∃ k' before between after, masked.kernel d = some k' ∧
              registry.candidates d caps = before ++ k :: (between ++ k' :: after) ∧
              k' ∉ before ∧ k' ≠ k ∧ k'.isa.width ≤ k.isa.width) := by
  obtain ⟨full, host₁', hfull, hkernel⟩ :=
    withRegistry_of_generous caps registry (fun k hk _ => h k hk) hhost₁
  obtain ⟨masked, host₂', hmasked, hkernel'⟩ :=
    withRegistry_of_generous (caps.restrict disabled) registry (fun k hk _ => h k hk) hhost₂
  refine ⟨full, host₁', masked, host₂', hfull, hmasked, fun d => ?_⟩
  rw [hkernel, hkernel', Registry.candidates_restrict]
  refine ⟨fun hnone => ?_, fun k hk => ⟨fun hkept => ?_, fun hlost => ?_⟩⟩
  · rw [List.find?_eq_none] at hnone ⊢
    exact fun k hk => hnone k (List.mem_filter.mp hk).1
  · exact find?_filter_of_kept hk hkept
  · have hdropped : k.isSupported (caps.restrict disabled) = false := Bool.eq_false_iff.mpr hlost
    rcases find?_filter_of_dropped (q := (·.isSupported (caps.restrict disabled))) hk hdropped
      with hnone | ⟨k', before, between, after, hfind, hsplit, hnot, hne⟩
    · exact .inl hnone
    · exact .inr ⟨k', before, between, after, hfind, hsplit, hnot, hne, width_le_of_later hsplit⟩

/-- Without half-precision conversions, bytes keep their kernel and halves are left to the scalar
conversion.  Without the 512-bit instructions, bytes go to a later kernel, of the next family. -/
theorem withRegistry_restrict_compiled :
    (∃ full host₁' masked host₂',
      withRegistry (.ofList Feature.all) Registry.compiled (Host.refusing []) = .ok full host₁' ∧
      withRegistry ((Capabilities.ofList Feature.all).restrict [.f16c]) Registry.compiled
        (Host.refusing []) = .ok masked host₂' ∧
      full.selected .u8ToF32 = "u8_to_f32_4_avx512" ∧
      masked.kernel .u8ToF32 = full.kernel .u8ToF32 ∧
      full.selected .f32ToF16 = "f32_to_f16_cw_4_avx512" ∧ masked.kernel .f32ToF16 = none) ∧
    ∃ full host₁' masked host₂' k k',
      withRegistry (.ofList Feature.all) Registry.compiled (Host.refusing []) = .ok full host₁' ∧
      withRegistry ((Capabilities.ofList Feature.all).restrict [.avx512f]) Registry.compiled
        (Host.refusing []) = .ok masked host₂' ∧
      full.kernel .u8ToF32 = some k ∧ k.name = "u8_to_f32_4_avx512" ∧
      masked.kernel .u8ToF32 = some k' ∧ k'.name = "u8_to_f32_4_avx2" ∧
      k' ≠ k ∧ k'.isa.width ≤ k.isa.width := by
  have hharmless : ∀ k ∈ Registry.compiled.kernels, ¬ k.Harmful :=
    fun _ hk => Registry.not_harmful_compiled hk
  have hhost : (Host.refusing []).Generous := fun _ _ => rfl
  -- what a selection among the compiled kernels comes to
  have hbest : ∀ {caps : Capabilities} {dispatcher : Dispatcher} {host' : Host},
      withRegistry caps Registry.compiled (Host.refusing []) = .ok dispatcher host' →
      ∀ d, dispatcher.kernel d = Registry.compiled.best d caps := by
    intro caps dispatcher host' hrun d
    obtain ⟨dispatcher', host'', hrun', hkernel⟩ :=
      withRegistry_best caps Registry.compiled (fun _ hk => hk) hhost
    rw [hrun'] at hrun
    cases hrun
    exact hkernel d
  -- the kernel for bytes needs no half-precision conversions
  have hbytes : ∃ k ∈ Registry.compiled.best .u8ToF32 (.ofList Feature.all),
      k.name = "u8_to_f32_4_avx512" ∧
      k.isSupported ((Capabilities.ofList Feature.all).restrict [.f16c]) = true ∧
      k.isSupported ((Capabilities.ofList Feature.all).restrict [.avx512f]) = false := by
    decide +kernel
  obtain ⟨k, hk, hname, hkept, hlost⟩ := hbytes
  constructor
  · obtain ⟨full, host₁', masked, host₂', hfull, hmasked, hkernel⟩ :=
      withRegistry_restrict hharmless [.f16c] hhost hhost
    have hbefore : full.kernel .u8ToF32 = some k := (hbest hfull .u8ToF32).trans hk
    have hafter := ((hkernel .u8ToF32).2 k hbefore).1 hkept
    refine ⟨full, host₁', masked, host₂', hfull, hmasked, ?_, hafter.trans hbefore.symm, ?_, ?_⟩
    · rw [selected, hbefore]
      exact hname
    · rw [selected, hbest hfull]
      decide +kernel
    · rw [hbest hmasked]
      decide +kernel
  · obtain ⟨full, host₁', masked, host₂', hfull, hmasked, hkernel⟩ :=
      withRegistry_restrict hharmless [.avx512f] hhost hhost
    have hbefore : full.kernel .u8ToF32 = some k := (hbest hfull .u8ToF32).trans hk
    have hnext : masked.selected .u8ToF32 = "u8_to_f32_4_avx2" := by
      rw [selected, hbest hmasked]
      decide +kernel
    rcases ((hkernel .u8ToF32).2 k hbefore).2 (Bool.eq_false_iff.mp hlost) with
      hnone | ⟨k', -, -, -, hafter, -, -, hne, hwidth⟩
    · rw [selected, hnone] at hnext
      exact absurd hnext (by decide)
    · rw [selected, hafter] at hnext
      exact ⟨full, host₁', masked, host₂', k, k', hfull, hmasked, hbefore, hname, hafter, hnext,
        hne, hwidth⟩

end Dispatcher

end Lanewise

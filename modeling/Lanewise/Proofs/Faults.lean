/-
Lanewise/Proofs/Faults.lean

Which kernels end a selection.

Selection turns the errors of validation into rejections, so it never ends with an
error.  A fault it passes on.  Validation faults on harmful kernels only: those that
report more elements than there are, and those whose blocks have no elements
(`Kernel.Harmful`).  So a selection faults exactly if it comes to try a harmful kernel
with memory granted (`withRegistry_fault_iff`), and comes to an end if no kernel that
the processor supports is harmful (`withRegistry_of_harmless`).

The selection tries the candidates of a direction one by one.  `Rejects` is a run over
candidates that are all turned down, and `Reaches` says how the selection comes to a
kernel: past the earlier directions, and past the candidates before it.
-/
import Lanewise.Proofs.Selection

namespace Lanewise

/-- The host after a line has been logged. -/
def Host.logged (host : Host) (line : Log.Line) : Host :=
  { host with journal := host.journal.push (.logged line) }

namespace Dispatcher

/-- The kernels are turned down one after another, from one host to another. -/
inductive Rejects (caps : Capabilities) : List Kernel → Host → Host → Prop where
  | nil (host : Host) : Rejects caps [] host host
  | cons {k : Kernel} {rest : List Kernel} {cause : Error} {host host₁ host' : Host}
    (hcause : validateKernel k caps .standard host = .error (.error cause) host₁)
    (hrest : Rejects caps rest (host₁.logged (.rejected k.name cause)) host') :
    Rejects caps (k :: rest) host host'

/-- The selection among a registry's kernels, begun on one host, comes to try a kernel on
another. -/
inductive Reaches (registry : Registry) (caps : Capabilities) (host : Host) (k : Kernel)
    (host' : Host) : Prop where
  | intro {d : Direction} {ds ds' : List Direction} {table : Direction → Option Kernel}
    {before after : List Kernel} {host₀ host₁ : Host}
    (hmake : ReferenceSet.make (host.logged (.selecting caps registry.size))
      = .ok .standard host₀)
    (hall : Direction.all = ds ++ d :: ds')
    (hearlier : ds.foldlM (select registry caps .standard) (fun _ => none) host₀
      = .ok table host₁)
    (hcandidates : registry.candidates d caps = before ++ k :: after)
    (hrejects : Rejects caps before host₁ host')

section

variable {registry : Registry} {caps : Capabilities} {host host' : Host} {k : Kernel}

/-! ### One direction -/

theorem firstValid_of_ok {rest : List Kernel} {host₁ : Host}
    (h : validateKernel k caps .standard host = .ok () host₁) :
    firstValid caps .standard (k :: rest) host = .ok (some k) host₁ :=
  run_bind_of_ok (Session.attempt_of_ok h)

theorem firstValid_of_error {rest : List Kernel} {cause : Error} {host₁ : Host}
    (h : validateKernel k caps .standard host = .error (.error cause) host₁) :
    firstValid caps .standard (k :: rest) host
      = firstValid caps .standard rest (host₁.logged (.rejected k.name cause)) :=
  run_bind_of_ok (Session.attempt_of_error h)

theorem firstValid_of_fault {rest : List Kernel} {f : Fault} {host₁ : Host}
    (h : validateKernel k caps .standard host = .error (.fault f) host₁) :
    firstValid caps .standard (k :: rest) host = .error (.fault f) host₁ :=
  run_bind_of_error (Session.attempt_of_fault h)

/-- A run over candidates ends early exactly if it comes to one on which validation
faults, and then with that fault. -/
theorem firstValid_eq_error_iff {ks : List Kernel} {s : Stop} :
    firstValid caps .standard ks host = .error s host' ↔
      ∃ before k after host₁ f, ks = before ++ k :: after ∧ Rejects caps before host host₁ ∧
        s = .fault f ∧ validateKernel k caps .standard host₁ = .error (.fault f) host' := by
  induction ks generalizing host with
  | nil =>
    constructor
    · intro h
      cases h
    · rintro ⟨before, k, after, -, -, hks, -⟩
      cases before <;> cases hks
  | cons k rest ih =>
    constructor
    · intro h
      -- what validation says of the first kernel decides whether the rest is tried
      rcases hvalid : validateKernel k caps .standard host with ⟨_, host₁⟩ | ⟨cause | f, host₁⟩
      · rw [firstValid_of_ok hvalid] at h
        cases h
      · rw [firstValid_of_error hvalid] at h
        obtain ⟨before, k', after, host₂, f, rfl, hrejects, hs, hfault⟩ := ih.mp h
        exact ⟨k :: before, k', after, host₂, f, rfl, .cons hvalid hrejects, hs, hfault⟩
      · rw [firstValid_of_fault hvalid] at h
        cases h
        exact ⟨[], k, rest, host, f, rfl, .nil host, rfl, hvalid⟩
    · rintro ⟨before, k', after, host₁, f, hks, hrejects, rfl, hfault⟩
      cases hrejects with
      | nil =>
        cases hks
        exact firstValid_of_fault hfault
      | cons hcause hrest =>
        cases hks
        rw [firstValid_of_error hcause]
        exact ih.mpr ⟨_, k', after, host₁, f, rfl, hrest, rfl, hfault⟩

theorem select_eq_error_iff {table : Direction → Option Kernel} {d : Direction} {s : Stop} :
    select registry caps .standard table d host = .error s host' ↔
      firstValid caps .standard (registry.candidates d caps) host = .error s host' := by
  rw [select]
  rcases hfirst : firstValid caps .standard (registry.candidates d caps) host with
    ⟨kernel?, host₁⟩ | ⟨s₁, host₁⟩
  · rw [run_bind_of_ok hfirst]
    exact ⟨fun h => (nomatch h), fun h => (nomatch h)⟩
  · rw [run_bind_of_error hfirst]
    exact ⟨fun h => by cases h; rfl, fun h => by cases h; rfl⟩

/-! ### All directions -/

theorem withRegistry_of_refused {cause : Error}
    (h : ReferenceSet.make (host.logged (.selecting caps registry.size))
      = .error (.error cause) host') :
    withRegistry caps registry host
      = .ok (scalarOn caps) (host'.logged (.fixtureUnavailable cause)) :=
  run_bind_of_ok (Session.attempt_of_error h)

theorem withRegistry_of_made {host₀ : Host}
    (h : ReferenceSet.make (host.logged (.selecting caps registry.size))
      = .ok .standard host₀) :
    withRegistry caps registry host
      = ((Direction.all.foldlM (select registry caps .standard) fun _ => none) >>= fun table =>
          pure ⟨caps, table⟩) host₀ :=
  run_bind_of_ok (Session.attempt_of_ok h)

/-- **A selection ends early** exactly if it comes to try a kernel on which validation
faults. -/
theorem withRegistry_eq_error_iff {s : Stop} :
    withRegistry caps registry host = .error s host' ↔
      ∃ k host₁ f, Reaches registry caps host k host₁ ∧ s = .fault f ∧
        validateKernel k caps .standard host₁ = .error (.fault f) host' := by
  rcases ReferenceSet.make_cases (host.logged (.selecting caps registry.size)) with
    ⟨host₀, hmake⟩ | ⟨host₀, hmake⟩
  · rw [withRegistry_of_made hmake]
    constructor
    · intro h
      -- nothing fails after the fold, so the fold failed, in one of its directions
      rcases hfold : (Direction.all.foldlM (select registry caps .standard) fun _ => none) host₀
        with ⟨table, host₁⟩ | ⟨s₁, host₁⟩
      · rw [run_bind_of_ok hfold] at h
        cases h
      · rw [run_bind_of_error hfold] at h
        cases h
        obtain ⟨ds, d, ds', table, host₁, hall, hearlier, hselect⟩ := foldlM_eq_error_iff.mp hfold
        obtain ⟨before, k, after, host₂, f, hcandidates, hrejects, hs, hfault⟩ :=
          firstValid_eq_error_iff.mp (select_eq_error_iff.mp hselect)
        exact ⟨k, host₂, f, .intro hmake hall hearlier hcandidates hrejects, hs, hfault⟩
    · rintro ⟨k, host₂, f, ⟨hmake', hall, hearlier, hcandidates, hrejects⟩, rfl, hfault⟩
      rw [hmake] at hmake'
      cases hmake'
      refine run_bind_of_error (foldlM_eq_error_iff.mpr ⟨_, _, _, _, _, hall, hearlier, ?_⟩)
      exact select_eq_error_iff.mpr (firstValid_eq_error_iff.mpr
        ⟨_, k, _, host₂, f, hcandidates, hrejects, rfl, hfault⟩)
  · -- without reference data nothing is tried
    rw [withRegistry_of_refused hmake]
    constructor
    · intro h
      cases h
    · rintro ⟨k, host₂, f, ⟨hmake', -⟩, -⟩
      rw [hmake] at hmake'
      cases hmake'

/-- A kernel that is tried is one of the registry, and the processor supports it. -/
theorem Reaches.mem (h : Reaches registry caps host k host') :
    k ∈ registry.kernels ∧ caps.Permits k := by
  rcases h with @⟨d, _, _, _, before, after, _, _, -, -, -, hcandidates, -⟩
  have hmem : k ∈ registry.candidates d caps := by
    rw [hcandidates]
    exact List.mem_append_right before List.mem_cons_self
  obtain ⟨hkernels, hpermits, -⟩ := Registry.mem_candidates.mp hmem
  exact ⟨hkernels, hpermits⟩

/-- **A selection faults** exactly if it comes to try a harmful kernel with memory granted. -/
theorem withRegistry_fault_iff :
    (∃ f host', withRegistry caps registry host = .error (.fault f) host') ↔
      ∃ k host₁, Reaches registry caps host k host₁ ∧ host₁.refuses host₁.requested = false ∧
        k.Harmful := by
  constructor
  · rintro ⟨f, host', h⟩
    obtain ⟨k, host₁, f', hreaches, -, hfault⟩ := withRegistry_eq_error_iff.mp h
    obtain ⟨-, hrefuses, hharmful⟩ := validateKernel_fault_iff.mp ⟨f', host', hfault⟩
    exact ⟨k, host₁, hreaches, hrefuses, hharmful⟩
  · rintro ⟨k, host₁, hreaches, hrefuses, hharmful⟩
    obtain ⟨f, host', hfault⟩ :=
      validateKernel_fault_iff.mpr ⟨hreaches.mem.2, hrefuses, hharmful⟩
    exact ⟨f, host', withRegistry_eq_error_iff.mpr ⟨k, host₁, f, hreaches, rfl, hfault⟩⟩

/-- Without a fault, a dispatcher is made. -/
theorem withRegistry_of_not_fault
    (h : ¬ ∃ f host', withRegistry caps registry host = .error (.fault f) host') :
    ∃ dispatcher host', withRegistry caps registry host = .ok dispatcher host' := by
  rcases hrun : withRegistry caps registry host with ⟨dispatcher, host'⟩ | ⟨s, host'⟩
  · exact ⟨dispatcher, host', rfl⟩
  · obtain ⟨k, host₁, f, -, rfl, -⟩ := withRegistry_eq_error_iff.mp hrun
    exact absurd ⟨f, host', hrun⟩ h

/-- If no supported kernel is harmful, a dispatcher is made on every host. -/
theorem withRegistry_of_harmless
    (h : ∀ k ∈ registry.kernels, caps.Permits k → ¬ k.Harmful) (host : Host) :
    ∃ dispatcher host', withRegistry caps registry host = .ok dispatcher host' := by
  apply withRegistry_of_not_fault
  intro hfault
  obtain ⟨k, host₁, hreaches, -, hharmful⟩ := withRegistry_fault_iff.mp hfault
  exact h k hreaches.mem.1 hreaches.mem.2 hharmful

end

/-! ### Any kernels -/

theorem candidates_singleton {k : Kernel} {caps : Capabilities} (h : caps.Permits k)
    (d : Direction) :
    (⟨[k]⟩ : Registry).candidates d caps = if k.direction = d then [k] else [] := by
  have hadmissible : (⟨[k]⟩ : Registry).admissible caps = [k] := List.filter_eq_self.mpr
    (List.forall_mem_singleton.mpr h)
  rw [Registry.candidates, hadmissible]
  by_cases hd : k.direction = d
  · have hkept : [k].filter (·.direction == d) = [k] :=
      List.filter_eq_self.mpr (List.forall_mem_singleton.mpr (beq_iff_eq.mpr hd))
    rw [if_pos hd, hkept, List.mergeSort_singleton]
  · have hdropped : [k].filter (·.direction == d) = [] :=
      List.filter_eq_nil_iff.mpr (List.forall_mem_singleton.mpr (mt beq_iff_eq.mp hd))
    rw [if_neg hd, hdropped, List.mergeSort_nil]

/-- A direction without candidates is served element by element. -/
theorem select_of_nil {registry : Registry} {caps : Capabilities}
    {table : Direction → Option Kernel} {d : Direction} {host : Host}
    (h : registry.candidates d caps = []) :
    select registry caps .standard table d host
      = .ok (assign table d none) (host.logged (.selected d (nameOf none))) := by
  rw [select, h]
  rfl

theorem foldlM_select_of_nil {registry : Registry} {caps : Capabilities} {ds : List Direction}
    (h : ∀ d ∈ ds, registry.candidates d caps = []) (table : Direction → Option Kernel)
    (host : Host) :
    ∃ table' host', ds.foldlM (select registry caps .standard) table host = .ok table' host' ∧
      host'.refuses = host.refuses := by
  induction ds generalizing table host with
  | nil => exact ⟨table, host, rfl, rfl⟩
  | cons d ds ih =>
    rw [List.foldlM_cons, run_bind_of_ok (select_of_nil (h d List.mem_cons_self))]
    exact ih (fun d' hd' => h d' (List.mem_cons_of_mem d hd')) _ _

/-- **What any kernels can do to validation and to a selection.**  On reference data that were
made, validation passes a kernel, rejects it with one of four errors, or faults; a selection
makes a dispatcher or faults.  The faults come of supported harmful kernels with memory
granted, and of nothing else. -/
theorem fault_iff_harmful (registry : Registry) (caps : Capabilities) :
    (∀ k ∈ registry.kernels, ∀ start fixture made, ReferenceSet.make start = .ok fixture made →
      ∀ host,
        ((∃ host', validateKernel k caps fixture host = .ok () host') ∨
          (∃ e host', validateKernel k caps fixture host = .error (.error e) host' ∧
            k.Rejection caps e) ∨
          ∃ f host', validateKernel k caps fixture host = .error (.fault f) host') ∧
        ((∃ f host', validateKernel k caps fixture host = .error (.fault f) host') ↔
          caps.Permits k ∧ host.refuses host.requested = false ∧ k.Harmful)) ∧
    ∀ host,
      ((∃ dispatcher host', withRegistry caps registry host = .ok dispatcher host') ∨
        ∃ f host', withRegistry caps registry host = .error (.fault f) host') ∧
      ((∃ f host', withRegistry caps registry host = .error (.fault f) host') ↔
        ∃ k host₁, Reaches registry caps host k host₁ ∧
          host₁.refuses host₁.requested = false ∧ k.Harmful) := by
  constructor
  · intro k _ start fixture made hmake host
    obtain rfl := ReferenceSet.make_eq_standard hmake
    refine ⟨?_, validateKernel_fault_iff⟩
    rcases hvalid : validateKernel k caps .standard host with ⟨_, host'⟩ | ⟨e | f, host'⟩
    · exact .inl ⟨host', rfl⟩
    · exact .inr (.inl ⟨e, host', rfl, rejection_of_validateKernel hvalid⟩)
    · exact .inr (.inr ⟨f, host', rfl⟩)
  · intro host
    refine ⟨?_, withRegistry_fault_iff⟩
    by_cases hfault : ∃ f host', withRegistry caps registry host = .error (.fault f) host'
    · exact .inr hfault
    · exact .inl (withRegistry_of_not_fault hfault)

theorem trialCount_sample {name : String} {d : Direction} {isa : Isa} {requires : List Feature}
    {lanes unroll : Nat} {preferred : Bool} {f : d.Source → d.Target}
    {converted reported : Nat → Nat} :
    (Samples.sample name d isa requires lanes unroll preferred f converted reported).trialCount
      = reported referenceLength := by
  have hcount : (Samples.sample name d isa requires lanes unroll preferred f converted
      reported).trialCount = reported (trialSource d).size := rfl
  rw [hcount, size_trialSource]

/-- A sample that converts all elements and reports eight more. -/
def overlong : Kernel :=
  Samples.sample "overlong" Samples.saturating .avx2 [] 4 2 false Samples.saturating.scalar id
    (fun n => n + 8)

theorem overlong_harmful : overlong.Harmful := by
  refine .inl ?_
  rw [overlong, trialCount_sample]
  decide

/-- The overlong sample ends validation and a selection, on a host that refuses nothing. -/
theorem overlong_faults :
    (∃ f host', validateKernel overlong .none .standard (Host.refusing [])
      = .error (.fault f) host') ∧
    ∃ f host', withRegistry .none ⟨[overlong]⟩ (Host.refusing []) = .error (.fault f) host' := by
  obtain ⟨hvalidation, hselection⟩ := fault_iff_harmful ⟨[overlong]⟩ .none
  constructor
  · refine (hvalidation overlong List.mem_cons_self (Host.refusing []) .standard _
      (ReferenceSet.make_of_granted fun _ _ => rfl) (Host.refusing [])).2.mpr ?_
    exact ⟨rfl, rfl, overlong_harmful⟩
  · have hcandidates := candidates_singleton (show Capabilities.none.Permits overlong from rfl)
    have hnone : ∀ d ∈ [.f32ToF16, .f16ToF32, .f32ToBf16, .bf16ToF32],
        (⟨[overlong]⟩ : Registry).candidates d .none = [] := by
      intro d hd
      rw [hcandidates]
      fin_cases hd <;> rfl
    obtain ⟨table, host₁, hearlier, hrefuses⟩ := foldlM_select_of_nil hnone (fun _ => none) _
    refine (hselection (Host.refusing [])).2.mpr ⟨overlong, host₁, ?_, ?_, overlong_harmful⟩
    · exact .intro (ReferenceSet.make_of_granted fun _ _ => rfl) rfl hearlier
        (hcandidates Samples.saturating) (.nil host₁)
    · rw [hrefuses]
      rfl

end Dispatcher

end Lanewise

/-
Lanewise/Proofs/Pinning.lean

Pinning a kernel changes one direction and no other.

`withKernel` first tries the named kernel by itself, with reference data of its own, and
then makes a whole selection.  So four requests come before those of the selection, and
the table of what is made is

    assign inner.kernel k.direction (some k)        inner made by `new` at the fifth request

(`withKernel_exact`).  Which host the inner selection runs on does not matter: a first
fit depends on the answers to its requests alone (`FirstFit.unique`), and by induction
over the directions so does the selection (`withRegistry_congr`).

There are five ways for pinning to end, and the order of its steps decides among them.
-/
import Lanewise.Proofs.Admission

namespace Lanewise

/-! ### The same answers, the same choices -/

section

variable {caps : Capabilities} {refuses refuses' : Nat → Bool} {n n' : Nat} {k : Kernel}
  {ks tried tried' : List Kernel} {kernel? kernel?' : Option Kernel}

theorem validationAt_congr (hcaps : caps.Permits k) (h : refuses n = refuses' n') :
    validationAt caps refuses n k = validationAt caps refuses' n' k := by
  rw [validationAt_eq hcaps, validationAt_eq hcaps, h]

theorem FirstFit.of_nil (h : FirstFit caps refuses n ks tried kernel?) (hks : ks = []) :
    tried = [] ∧ kernel? = none := by
  cases h with
  | chosen _ _ => exact absurd hks (List.append_ne_nil_of_right_ne_nil _ (List.cons_ne_nil _ _))
  | scalar _ => exact ⟨hks, rfl⟩

theorem RejectedFrom.tail (h : RejectedFrom caps refuses n (k :: ks)) :
    RejectedFrom caps refuses (n + 1) ks := by
  intro i k' hk'
  rw [Nat.add_assoc, Nat.add_comm 1]
  exact h (i + 1) k' hk'

/-- Either the first candidate passes, or the others are fitted from the next request on. -/
theorem FirstFit.of_cons (h : FirstFit caps refuses n ks tried kernel?) {rest : List Kernel}
    (hks : ks = k :: rest) :
    (validationAt caps refuses n k = .ok () ∧ tried = [k] ∧ kernel? = some k) ∨
      ∃ cause later, validationAt caps refuses n k = .error (.error cause) ∧ tried = k :: later ∧
        FirstFit caps refuses (n + 1) rest later kernel? := by
  cases h with
  | @chosen rejected untried k' hrejected hpasses =>
    rcases rejected with _ | ⟨first, rejected⟩
    · cases hks
      exact .inl ⟨hpasses, rfl, rfl⟩
    · cases hks
      obtain ⟨cause, hcause⟩ := hrejected 0 k rfl
      rw [List.length_cons, Nat.add_comm _ 1, ← Nat.add_assoc] at hpasses
      exact .inr ⟨cause, _, hcause, rfl, .chosen hrejected.tail hpasses⟩
  | scalar hrejected =>
    subst hks
    obtain ⟨cause, hcause⟩ := hrejected 0 k rfl
    exact .inr ⟨cause, rest, hcause, rfl, .scalar hrejected.tail⟩

/-- **A first fit depends on the answers to its requests alone.** -/
theorem FirstFit.unique (h : FirstFit caps refuses n ks tried kernel?)
    (h' : FirstFit caps refuses' n' ks tried' kernel?') (hcaps : ∀ k ∈ ks, caps.Permits k)
    (hanswers : ∀ i, refuses (n + i) = refuses' (n' + i)) :
    tried = tried' ∧ kernel? = kernel?' := by
  induction ks generalizing n n' tried tried' with
  | nil =>
    obtain ⟨rfl, rfl⟩ := h.of_nil rfl
    obtain ⟨rfl, rfl⟩ := h'.of_nil rfl
    exact ⟨rfl, rfl⟩
  | cons k rest ih =>
    have hsame := validationAt_congr (hcaps k List.mem_cons_self) (hanswers 0)
    rw [Nat.add_zero, Nat.add_zero] at hsame
    rcases h.of_cons rfl with ⟨hok, rfl, rfl⟩ | ⟨cause, later, hcause, rfl, hlater⟩
    · rcases h'.of_cons rfl with ⟨-, rfl, rfl⟩ | ⟨cause', _, hcause', -⟩
      · exact ⟨rfl, rfl⟩
      · rw [hsame, hcause'] at hok
        cases hok
    · rcases h'.of_cons rfl with ⟨hok', -⟩ | ⟨_, later', -, rfl, hlater'⟩
      · rw [hsame, hok'] at hcause
        cases hcause
      · have hnext : ∀ i, refuses (n + 1 + i) = refuses' (n' + 1 + i) := by
          intro i
          rw [Nat.add_assoc, Nat.add_assoc]
          exact hanswers (1 + i)
        obtain ⟨rfl, rfl⟩ := ih hlater hlater'
          (fun k' hk' => hcaps k' (List.mem_cons_of_mem k hk')) hnext
        exact ⟨rfl, rfl⟩

end

namespace Dispatcher

section

variable {caps : Capabilities} {registry : Registry} {host host' host₁ host₁' : Host}

/-- The turns of the directions come to the same table. -/
theorem FirstFits.unique {refuses refuses' : Nat → Bool} {ds : List Direction} (hds : ds.Nodup)
    {n n' : Nat} {tried tried' : Direction → List Kernel} {table table' : Direction → Option Kernel}
    (h : FirstFits registry caps refuses n tried table ds)
    (h' : FirstFits registry caps refuses' n' tried' table' ds)
    (hanswers : ∀ i, refuses (n + i) = refuses' (n' + i)) : ∀ d ∈ ds, table d = table' d := by
  induction ds generalizing n n' with
  | nil => exact fun d hd => absurd hd List.not_mem_nil
  | cons d ds ih =>
    obtain ⟨hd, hds⟩ := List.nodup_cons.mp hds
    obtain ⟨hfirst, hlater⟩ := (firstFits_cons hd).mp h
    obtain ⟨hfirst', hlater'⟩ := (firstFits_cons hd).mp h'
    obtain ⟨htried, htable⟩ := hfirst.unique hfirst'
      (fun k hk => (Registry.mem_candidates.mp hk).2.1) hanswers
    -- the later turns begin after the same number of requests
    have hrest : ∀ d' ∈ ds, table d' = table' d' := by
      refine ih hds hlater hlater' fun i => ?_
      rw [Nat.add_assoc, Nat.add_assoc, hanswers, htried]
    exact List.forall_mem_cons.mpr ⟨htable, hrest⟩

/-- **A selection depends on the answers to its requests alone.** -/
theorem withRegistry_congr {dispatcher dispatcher₁ : Dispatcher}
    (hrun : withRegistry caps registry host = .ok dispatcher host')
    (hrun₁ : withRegistry caps registry host₁ = .ok dispatcher₁ host₁')
    (hanswers : ∀ i, host.refuses (host.requested + i) = host₁.refuses (host₁.requested + i)) :
    dispatcher = dispatcher₁ := by
  obtain ⟨capabilities, kernel⟩ := dispatcher
  obtain ⟨capabilities₁, kernel₁⟩ := dispatcher₁
  obtain ⟨rfl, -, hcome⟩ := withRegistry_ok hrun
  obtain ⟨rfl, -, hcome₁⟩ := withRegistry_ok hrun₁
  rw [mk.injEq]
  refine ⟨rfl, funext fun d => ?_⟩
  rcases hcome with ⟨⟨i, hi, hrefused⟩, hnone, -⟩ | ⟨hgranted, tried, hfits, -⟩
  · rcases hcome₁ with ⟨-, hnone₁, -⟩ | ⟨hgranted₁, -⟩
    · exact (hnone d).trans (hnone₁ d).symm
    · rw [hanswers, hgranted₁ i hi] at hrefused
      cases hrefused
  · rcases hcome₁ with ⟨⟨i, hi, hrefused⟩, -⟩ | ⟨-, tried₁, hfits₁, -⟩
    · rw [← hanswers, hgranted i hi] at hrefused
      cases hrefused
    · refine hfits.unique (by decide : Direction.all.Nodup) hfits₁ (fun i => ?_) d d.mem_all
      rw [Nat.add_assoc, Nat.add_assoc]
      exact hanswers (3 + i)

end

/-- Among compiled kernels a selection always comes to an end. -/
theorem new_run (caps : Capabilities) (host : Host) :
    ∃ dispatcher host', new caps host = .ok dispatcher host' :=
  withRegistry_of_harmless
    (fun _ hk _ => Registry.not_harmful_compiled hk) host

/-- Where the requests get the same answers, the same dispatcher is made. -/
theorem new_of_answers {caps : Capabilities} {dispatcher : Dispatcher} {host host' : Host}
    (hnew : new caps host = .ok dispatcher host') {host₁ : Host}
    (hanswers : ∀ i, host₁.refuses (host₁.requested + i) = host.refuses (host.requested + i)) :
    ∃ host₁', new caps host₁ = .ok dispatcher host₁' := by
  obtain ⟨dispatcher₁, host₁', hnew₁⟩ := new_run caps host₁
  exact ⟨host₁', withRegistry_congr hnew₁ hnew hanswers ▸ hnew₁⟩

end Dispatcher

/-! ### The named kernel -/

theorem Registry.nodup_names_compiled : Registry.compiled.names.Nodup := by decide +kernel

/-- Kernels of different places have different names. -/
theorem Registry.find?_compiled {k : Kernel} (h : k ∈ Registry.compiled.kernels) :
    Registry.compiled.find? k.name = some k := by
  rcases hfind : Registry.compiled.find? k.name with _ | k'
  · exact absurd (beq_self_eq_true k.name) (List.find?_eq_none.mp hfind k h)
  · have hname : k'.name = k.name := by simpa using List.find?_some hfind
    rw [List.inj_on_of_nodup_map nodup_names_compiled (List.mem_of_find?_eq_some hfind) h hname]

theorem Registry.find?_eq_none_iff {registry : Registry} {name : String} :
    registry.find? name = none ↔ ∀ k ∈ registry.kernels, k.name ≠ name := by
  rw [find?, List.find?_eq_none]
  simp only [beq_iff_eq, ne_eq]

namespace Dispatcher

section

variable {caps : Capabilities} {name : String} {k : Kernel} {host host' : Host}

theorem withKernel_of_unknown (hfind : Registry.compiled.find? name = none) :
    withKernel caps name host = .error (.error (.unknownKernel name)) host := by
  rw [withKernel, hfind]
  rfl

/-- Without the reference data the kernel is not looked at. -/
theorem withKernel_of_refused (hfind : Registry.compiled.find? name = some k)
    (h : ∃ i < 3, host.refuses (host.requested + i) = true) :
    ∃ host', withKernel caps name host = .error (.error refusal) host' := by
  obtain ⟨n, -, hmake⟩ := ReferenceSet.make_of_refused h
  rw [withKernel, hfind]
  exact ⟨_, run_bind_of_error hmake⟩

/-- What is wrong with the kernel is what is wrong with pinning it. -/
theorem withKernel_of_rejected (hfind : Registry.compiled.find? name = some k)
    (h : ∀ i < 3, host.refuses (host.requested + i) = false) {cause : Error}
    (hrejected : validateKernel k caps .standard (host.asked 3) = .error (.error cause) host') :
    withKernel caps name host = .error (.error cause) host' := by
  rw [withKernel, hfind]
  exact (run_bind_of_ok (ReferenceSet.make_of_granted h)).trans (run_bind_of_error hrejected)

/-- A kernel that passes is put into a selection that begins at the fifth request. -/
theorem withKernel_of_passed (hfind : Registry.compiled.find? name = some k)
    (h : ∀ i < 3, host.refuses (host.requested + i) = false) (hcaps : caps.Permits k)
    (hgranted : host.refuses (host.requested + 3) = false) :
    ∃ inner host₁, new caps ((host.asked 3).tried k) = .ok inner host₁ ∧
      withKernel caps name host
        = .ok { inner with kernel := assign inner.kernel k.direction (some k) }
            (host₁.logged (.pinned k.name k.direction)) := by
  have hverdict := Registry.verdict_compiled (List.mem_of_find?_eq_some hfind)
  have hpassed : validateKernel k caps .standard (host.asked 3)
      = .ok () ((host.asked 3).tried k) := by
    rw [validateKernel_of_granted (Capabilities.permits_iff_missing?.mp hcaps) hgranted,
      Kernel.judged, hverdict]
  obtain ⟨inner, host₁, hnew⟩ := new_run caps ((host.asked 3).tried k)
  refine ⟨inner, host₁, hnew, ?_⟩
  rw [withKernel, hfind]
  refine (run_bind_of_ok (ReferenceSet.make_of_granted h)).trans ?_
  rw [run_bind_of_ok hpassed, run_bind_of_ok hnew]
  rfl

/-- A known kernel is refused memory twice, lacks a feature, or is pinned. -/
theorem withKernel_cases (hfind : Registry.compiled.find? name = some k) (caps : Capabilities)
    (host : Host) :
    (∃ host', withKernel caps name host = .error (.error refusal) host') ∨
      (∃ f, withKernel caps name host
        = .error (.error (.unsupportedKernel k.name f)) (host.asked 3)) ∨
      caps.Permits k ∧ (∀ i < 4, host.refuses (host.requested + i) = false) ∧
        ∃ inner host₁, new caps ((host.asked 3).tried k) = .ok inner host₁ ∧
          withKernel caps name host
            = .ok { inner with kernel := assign inner.kernel k.direction (some k) }
                (host₁.logged (.pinned k.name k.direction)) := by
  rcases host.granted_or_refused 3 with hgranted | hrefused
  · rcases hmissing : caps.missing? k.requires with _ | f
    · cases hrefuses : host.refuses (host.requested + 3) with
      | true =>
        exact .inl ⟨_, withKernel_of_rejected hfind hgranted
          (validateKernel_of_refused hmissing hrefuses)⟩
      | false =>
        have hcaps := Capabilities.permits_iff_missing?.mpr hmissing
        refine .inr (.inr ⟨hcaps, fun i hi => ?_,
          withKernel_of_passed hfind hgranted hcaps hrefuses⟩)
        rcases Nat.lt_succ_iff_lt_or_eq.mp hi with hlt | rfl
        · exact hgranted i hlt
        · exact hrefuses
    · exact .inr (.inl ⟨f, withKernel_of_rejected hfind hgranted
        (validateKernel_of_missing hmissing)⟩)
  · exact .inl (withKernel_of_refused hfind hrefused)

/-- What a pinned dispatcher was made of. -/
theorem withKernel_ok {dispatcher : Dispatcher}
    (hrun : withKernel caps name host = .ok dispatcher host') :
    ∃ k inner host₁, caps.Permits k ∧ (∀ i < 4, host.refuses (host.requested + i) = false) ∧
      new caps ((host.asked 3).tried k) = .ok inner host₁ ∧
      dispatcher = { inner with kernel := assign inner.kernel k.direction (some k) } ∧
      host' = host₁.logged (.pinned k.name k.direction) := by
  rcases hfind : Registry.compiled.find? name with _ | k
  · rw [withKernel_of_unknown hfind] at hrun
    cases hrun
  · rcases withKernel_cases hfind caps host with
      ⟨_, h⟩ | ⟨_, h⟩ | ⟨hcaps, hgranted, inner, host₁, hnew, h⟩
    · rw [h] at hrun
      cases hrun
    · rw [h] at hrun
      cases hrun
    · rw [h] at hrun
      cases hrun
      exact ⟨k, inner, host₁, hcaps, hgranted, hnew, rfl, rfl⟩

/-- An unknown kernel is reported for an unknown name, and for no other reason. -/
theorem withKernel_unknown_iff :
    (∃ unknown host', withKernel caps name host
      = .error (.error (.unknownKernel unknown)) host') ↔
      ∀ k ∈ Registry.compiled.kernels, k.name ≠ name := by
  rw [← Registry.find?_eq_none_iff]
  constructor
  · rintro ⟨unknown, host', hrun⟩
    rcases hfind : Registry.compiled.find? name with _ | k
    · rfl
    · rcases withKernel_cases hfind caps host with ⟨_, h⟩ | ⟨_, h⟩ | ⟨-, -, _, _, -, h⟩
      · rw [h] at hrun
        cases hrun
      · rw [h] at hrun
        cases hrun
      · rw [h] at hrun
        cases hrun
  · intro hfind
    exact ⟨name, host, withKernel_of_unknown hfind⟩

end

/-- **Pinning is exact.**  It fails for a name that no compiled kernel has, then for lack of the
reference data, for the first required feature that is missing, and for lack of memory to try the
kernel.  Otherwise it makes the dispatcher that `new` makes of the answers to the requests from the
fifth on, with the named kernel in charge of its direction, also where these answers leave nothing
to the other directions. -/
theorem withKernel_exact (caps : Capabilities) (name : String) (host : Host) :
    ((∃ unknown host', withKernel caps name host
        = .error (.error (.unknownKernel unknown)) host') ↔
      ∀ k ∈ Registry.compiled.kernels, k.name ≠ name) ∧
    ((∀ k ∈ Registry.compiled.kernels, k.name ≠ name) →
      withKernel caps name host = .error (.error (.unknownKernel name)) host) ∧
    ∀ k ∈ Registry.compiled.kernels, k.name = name →
      ((∃ i < 3, host.refuses (host.requested + i) = true) →
        ∃ host', withKernel caps name host = .error (.error refusal) host') ∧
      ((∀ i < 3, host.refuses (host.requested + i) = false) →
        (∀ before f after, k.requires = before ++ f :: after →
          (∀ g ∈ before, caps.has g = true) → caps.has f = false →
          ∃ host', withKernel caps name host
            = .error (.error (.unsupportedKernel name f)) host') ∧
        ((∀ f ∈ k.requires, caps.has f = true) →
          (host.refuses (host.requested + 3) = true →
            ∃ host', withKernel caps name host = .error (.error refusal) host') ∧
          (host.refuses (host.requested + 3) = false →
            ∃ dispatcher host', withKernel caps name host = .ok dispatcher host' ∧
              (∀ host₁ : Host, (∀ i, host₁.refuses (host₁.requested + i)
                  = host.refuses (host.requested + (i + 4))) →
                ∃ inner host₁', new caps host₁ = .ok inner host₁' ∧
                  dispatcher
                    = { inner with kernel := assign inner.kernel k.direction (some k) }) ∧
              ((∃ i < 3, host.refuses (host.requested + (i + 4)) = true) →
                ∀ d, dispatcher.kernel d = if d = k.direction then some k else none)))) := by
  refine ⟨withKernel_unknown_iff, ?_, ?_⟩
  · intro h
    exact withKernel_of_unknown (Registry.find?_eq_none_iff.mpr h)
  · rintro k hk rfl
    have hfind := Registry.find?_compiled hk
    refine ⟨withKernel_of_refused hfind, fun hgranted => ⟨?_, fun hcaps => ⟨?_, ?_⟩⟩⟩
    · intro before f after hrequires hbefore hf
      have hmissing : caps.missing? k.requires = some f :=
        Capabilities.missing?_eq_some_iff.mpr ⟨before, after, hrequires, hbefore, hf⟩
      exact ⟨_, withKernel_of_rejected hfind hgranted (validateKernel_of_missing hmissing)⟩
    · intro hrefuses
      have hpermits := Capabilities.permits_iff.mpr hcaps
      exact ⟨_, withKernel_of_rejected hfind hgranted
        (validateKernel_of_refused (Capabilities.permits_iff_missing?.mp hpermits) hrefuses)⟩
    · intro hrefuses
      have hpermits := Capabilities.permits_iff.mpr hcaps
      obtain ⟨inner, host₁, hnew, hrun⟩ := withKernel_of_passed hfind hgranted hpermits hrefuses
      -- the request `i` of the selection is the request `i + 4` of the whole
      have hshift : ∀ i, ((host.asked 3).tried k).refuses (((host.asked 3).tried k).requested + i)
          = host.refuses (host.requested + (i + 4)) := by
        intro i
        rw [Nat.add_comm i 4, ← Nat.add_assoc]
        rfl
      refine ⟨_, _, hrun, fun host₂ hanswers => ?_, fun ⟨i, hi, hlost⟩ d => ?_⟩
      · obtain ⟨host₂', hnew₂⟩ := new_of_answers hnew fun i =>
          (hanswers i).trans (hshift i).symm
        exact ⟨inner, host₂', hnew₂, rfl⟩
      · obtain ⟨_, hscalar, -⟩ := withRegistry_of_refused_reference .compiled caps
          ⟨i, hi, (hshift i).trans hlost⟩
        cases hnew.symm.trans hscalar
        rfl

/-- A byte kernel of AVX2, on a host that refuses the first request of the inner selection: the
other directions are left to the scalar conversion. -/
theorem withKernel_alone :
    ∃ dispatcher host', withKernel (.ofList [.avx2]) "u8_to_f32_4_avx2" (Host.refusing [4])
        = .ok dispatcher host' ∧
      dispatcher.selected .u8ToF32 = "u8_to_f32_4_avx2" ∧
      ∀ d ≠ .u8ToF32, dispatcher.selected d = "scalar" := by
  have hnamed : ∃ k ∈ Registry.compiled.kernels, k.name = "u8_to_f32_4_avx2" ∧
      k.direction = .u8ToF32 ∧ ∀ f ∈ k.requires, (Capabilities.ofList [.avx2]).has f = true := by
    decide +kernel
  obtain ⟨k, hk, hname, hdirection, hcaps⟩ := hnamed
  obtain ⟨-, -, hpin⟩ := withKernel_exact (.ofList [.avx2]) "u8_to_f32_4_avx2" (Host.refusing [4])
  obtain ⟨-, hmade⟩ := hpin k hk hname
  obtain ⟨-, hsupported⟩ := hmade (by decide)
  obtain ⟨-, hpassed⟩ := hsupported hcaps
  obtain ⟨dispatcher, host', hrun, -, hlost⟩ := hpassed rfl
  have hkernel := hlost ⟨0, by decide, rfl⟩
  rw [hdirection] at hkernel
  refine ⟨dispatcher, host', hrun, ?_, fun d hd => ?_⟩
  · rw [selected, hkernel, if_pos rfl]
    exact hname
  · rw [selected, hkernel, if_neg hd]
    rfl

end Dispatcher

end Lanewise

/-
Lanewise/Proofs/Report.lean

The exit code and the table of the report.

A report is a row of steps, each of which returns a value, makes so many requests for
memory and prints some texts (`Runs`).  The requests of the whole program are numbered
through: three for the reference data, seven for the scalar conversions, and then one for
each kernel that the processor supports, in the order of the registry.  So the exit code is

    2   if the configuration names no feature, or one of the first three requests is refused
    1   otherwise, if one of those up to the last supported kernel is refused
    0   otherwise

(`exitCode_eq`).  The table has a line for each kernel, with its name at the beginning and its
status at the end (`IsRow`), and the status is what became of the kernel (`Tabulates`).
Compiled kernels pass wherever memory is granted, the selection that follows always makes
a dispatcher, and any such dispatcher converts the small input as it should
(`smokeTest_runs`): nothing after the table can change the exit code.
-/
import Lanewise.Report
import Lanewise.Proofs.Detection
import Lanewise.Proofs.Masking
import Lanewise.Proofs.Pinning

namespace Lanewise

/-! ### Steps -/

/-- From one host to another, so many pages were requested, and the texts were printed. -/
structure Host.Advances (host host' : Host) (n : Nat) (texts : List String) : Prop where
  refuses : host'.refuses = host.refuses
  requested : host'.requested = host.requested + n
  printed : host'.printed = host.printed ++ texts

section

variable {α β τ : Type} {host host' host'' : Host} {n m : Nat} {texts texts' : List String}

theorem Host.Advances.append (h : host.Advances host' n texts)
    (h' : host'.Advances host'' m texts') : host.Advances host'' (n + m) (texts ++ texts') where
  refuses := h'.refuses.trans h.refuses
  requested := by rw [h'.requested, h.requested, Nat.add_assoc]
  printed := by rw [h'.printed, h.printed, List.append_assoc]

theorem Host.advances_asked (host : Host) (n : Nat) : host.Advances (host.asked n) n [] :=
  ⟨rfl, rfl, (List.append_nil _).symm⟩

/-- Where all that was written is lines of the log, nothing was printed. -/
theorem Host.Logs.advances {lines : List Log.Line} (h : host.Logs host' lines)
    (hrefuses : host'.refuses = host.refuses) (hrequested : host'.requested = host.requested + n) :
    host.Advances host' n [] :=
  ⟨hrefuses, hrequested, h.printed.trans (List.append_nil _).symm⟩

/-- The computation returns `a`, requests `n` pages and prints the texts. -/
def Runs (act : Session α) (host : Host) (a : α) (n : Nat) (texts : List String) : Prop :=
  ∃ host', act host = .ok a host' ∧ host.Advances host' n texts

namespace Runs

variable {x : Session α} {f : α → Session β} {a : α} {b : β}

/-- One more computation. -/
theorem after (h : Runs x host' a m texts') (hadvances : host.Advances host' n texts) :
    ∃ host'', x host' = .ok a host'' ∧ host.Advances host'' (n + m) (texts ++ texts') := by
  obtain ⟨host'', hx, hlater⟩ := h
  exact ⟨host'', hx, hadvances.append hlater⟩

/-- The second computation begins on a host that has answered the requests of the first. -/
theorem bind (h : Runs x host a n texts)
    (hf : ∀ host', host'.refuses = host.refuses → host'.requested = host.requested + n →
      Runs (f a) host' b m texts') : Runs (x >>= f) host b (n + m) (texts ++ texts') := by
  obtain ⟨host', hx, hadvances⟩ := h
  obtain ⟨host'', hb, hadvances⟩ :=
    (hf host' hadvances.refuses hadvances.requested).after hadvances
  exact ⟨host'', (run_bind_of_ok hx).trans hb, hadvances⟩

theorem pure (a : α) (host : Host) : Runs (Pure.pure a) host a 0 [] :=
  ⟨host, rfl, (Host.Logs.refl host).advances rfl rfl⟩

theorem map (h : Runs x host a n texts) (g : α → β) :
    Runs (x >>= fun a => Pure.pure (g a)) host (g a) n texts := by
  obtain ⟨host', hx, hadvances⟩ := h
  exact ⟨host', run_bind_of_ok hx, hadvances⟩

theorem print (text : String) (host : Host) : Runs (Session.print text) host () 0 [text] := by
  refine ⟨{ host with journal := host.journal.push (.printed text) }, rfl, rfl, rfl, ?_⟩
  rw [Host.printed, Array.toList_push, List.filterMap_append]
  rfl

theorem forM_print (text : α → String) (l : List α) (host : Host) :
    Runs (l.forM fun a => Session.print (text a)) host () 0 (l.map text) := by
  induction l generalizing host with
  | nil => exact Runs.pure () host
  | cons a l ih => exact (Runs.print (text a) host).bind (m := 0) fun host' _ _ => ih host'

theorem log (line : Log.Line) (host : Host) : Runs (Session.log line) host () 0 [] :=
  ⟨host.logged line, rfl, ((Host.Logs.refl host).logged line).advances rfl rfl⟩

/-- A conversion neither requests pages nor prints. -/
theorem convertInto {act : Converting τ α} {dst : Array τ} {w : Workspace τ}
    (h : act { dst } = .ok a w) (host : Host) :
    Runs (Session.convertInto dst act) host (w.dst, a) 0 [] := by
  refine ⟨{ host with journal := host.journal ++ w.calls.map Event.called }, ?_, rfl, rfl, ?_⟩
  · rw [Session.convertInto, h]
  · rw [Host.printed, Array.toList_append, List.filterMap_append, Array.toList_map,
      List.filterMap_map]
    exact congrArg (_ ++ ·) (List.filterMap_eq_nil_iff.mpr fun _ _ => rfl)

theorem make (h : ∀ i < 3, host.refuses (host.requested + i) = false) :
    Runs ReferenceSet.make host .standard 3 [] :=
  ⟨host.asked 3, ReferenceSet.make_of_granted h, host.advances_asked 3⟩

end Runs

end

namespace Report

/-! ### The configuration -/

section

variable {disabled? : Option String}

/-- The pieces of the configured list that should name features. -/
def listed (disabled? : Option String) : List (List Char) :=
  disabled?.elim [] Capabilities.listed

/-- The features of the processor that are not masked. -/
def masked (detected : Capabilities) (disabled? : Option String) : Capabilities :=
  detected.restrict ((listed disabled?).filterMap Feature.ofName?)

theorem configure_runs (h : ∀ piece ∈ listed disabled?, Feature.ofName? piece ≠ none)
    (detected : Capabilities) (host : Host) :
    Runs (configure detected disabled?) host (masked detected disabled?) 0 [] := by
  rcases disabled? with _ | names
  · have hnone : masked detected none = detected := Capabilities.restrict_nil detected
    rw [hnone]
    exact Runs.pure detected host
  · have hnames : detected.restrictByNames names = .ok (masked detected (some names)) := by
      rw [Capabilities.restrictByNames, Capabilities.parseNames_of_known h]
      rfl
    rw [configure, hnames]
    exact (Runs.log (.masking names) host).map fun _ => masked detected (some names)

theorem configure_of_unknown (h : ∃ piece ∈ listed disabled?, Feature.ofName? piece = none)
    (detected : Capabilities) (host : Host) :
    ∃ cause, configure detected disabled? host = .error (.error cause) host := by
  rcases disabled? with _ | names
  · obtain ⟨_, hpiece, -⟩ := h
    exact absurd hpiece List.not_mem_nil
  · obtain ⟨unknown, hunknown⟩ := Capabilities.parseNames_of_unknown h
    rw [configure, Capabilities.restrictByNames, hunknown]
    exact ⟨.unknownFeature unknown, rfl⟩

end

/-! ### The scalar conversions -/

section

variable {d : Direction} {host : Host}

theorem validateScalar_of_granted (h : host.refuses host.requested = false) :
    validateScalar d .standard host = .ok () (host.asked 1) := by
  have htrial := trial_of_destination (destination_none_of_granted (d := d) h)
  rw [checksum_scalar] at htrial
  rw [validateScalar]
  refine (run_bind_of_ok htrial).trans ?_
  simp only [ne_eq, not_true_eq_false, if_false]
  rfl

theorem validateScalar_of_refused (h : host.refuses host.requested = true) :
    validateScalar d .standard host = .error (.error refusal) (host.asked 1) :=
  run_bind_of_error (trial_of_refused h)

/-- The scalar conversions are right; only memory can be missing to try them. -/
theorem tryScalar_runs (d : Direction) (host : Host) :
    Runs (tryScalar .standard d) host (!host.refuses host.requested) 1 [] := by
  cases hrefuses : host.refuses host.requested with
  | false =>
    have hattempt : Runs (Session.attempt (validateScalar d .standard)) host (.ok ()) 1 [] :=
      ⟨_, Session.attempt_of_ok (validateScalar_of_granted hrefuses), host.advances_asked 1⟩
    exact hattempt.bind (m := 0) fun host' _ _ => Runs.pure true host'
  | true =>
    have hattempt :
        Runs (Session.attempt (validateScalar d .standard)) host (.error refusal) 1 [] :=
      ⟨_, Session.attempt_of_error (validateScalar_of_refused hrefuses), host.advances_asked 1⟩
    exact hattempt.bind (m := 0) fun host' _ _ =>
      (Runs.log (.scalarMismatch d refusal) host').map fun _ => false

/-- The scalar conversions are tried with one request each. -/
theorem mapM_tryScalar_runs (ds : List Direction) (host : Host) :
    Runs (ds.mapM (tryScalar .standard)) host
      ((List.range' host.requested ds.length).map (!host.refuses ·)) ds.length [] := by
  induction ds generalizing host with
  | nil => exact Runs.pure [] host
  | cons d ds ih =>
    rw [List.mapM_cons, List.length_cons, List.range'_succ, List.map_cons, Nat.add_comm ds.length]
    refine (tryScalar_runs d host).bind fun host' hrefuses hrequested => ?_
    have hrest := ih host'
    rw [hrefuses, hrequested] at hrest
    exact hrest.map _

end

/-! ### The printed lines -/

/-- So many blanks. -/
def blanks (n : Nat) : String := String.ofList (List.replicate n ' ')

/-- The line above the table. -/
def headerLine : String := "kernel                                isa   block  status"

/-- A line of the table begins with the kernel's name, in 32 columns, and ends with a status.
Between them stand the instruction set and the size of a block, to the right of 8 and 7 columns. -/
def IsRow (k : Kernel) (status line : String) : Prop :=
  line = k.name ++ blanks (32 - k.name.length) ++ " " ++ blanks (8 - k.isa.name.length)
    ++ k.isa.name ++ " " ++ blanks (7 - (toString k.block).length) ++ toString k.block ++ "  "
    ++ status

theorem padRight_eq (width : Nat) (text : String) :
    Text.padRight width text = text ++ blanks (width - text.length) := by
  simp only [Text.padRight, Text.Padding.apply, Text.Padding.spaces]
  rw [String.ofList_append, String.ofList_toList, String.length_toList, blanks]

theorem padLeft_eq (width : Nat) (text : String) :
    Text.padLeft width text = blanks (width - text.length) ++ text := by
  simp only [Text.padLeft, Text.Padding.apply, Text.Padding.spaces]
  rw [String.ofList_append, String.ofList_toList, String.length_toList, blanks]

theorem header_eq : header = headerLine := by decide +kernel

theorem isRow_row (k : Kernel) (status : String) : IsRow k status (row k status) := by
  simp only [IsRow, row, columns, padRight_eq, padLeft_eq, String.append_assoc]

/-- A line has one status. -/
theorem IsRow.status_unique {k : Kernel} {status status' line : String} (h : IsRow k status line)
    (h' : IsRow k status' line) : status = status' := by
  rw [IsRow] at h h'
  rw [h] at h'
  exact (String.append_right_inj _).mp h'

/-- The status of a kernel that passes. -/
def okStatus : String := "ok"

/-- The status of a kernel that lacks a feature. -/
def skippedStatus (f : Feature) : String := "skipped (no " ++ f.name ++ ")"

/-- The status of a kernel for which no memory is granted. -/
def failedStatus : String := "FAILED: Memory allocation failed: allocator returned null "
  ++ "(requested 18432 bytes with 4096 byte alignment)"

theorem head?_skippedStatus (f : Feature) : (skippedStatus f).toList.head? = some 's' := by
  rw [skippedStatus, String.toList_append, String.toList_append]
  rfl

/-- A status of another kind begins with another letter. -/
theorem skippedStatus_ne (f : Feature) {status : String} (h : status.toList.head? ≠ some 's') :
    skippedStatus f ≠ status := by
  rintro rfl
  exact h (head?_skippedStatus f)

theorem failedStatus_eq : (Verdict.failed refusal).text = failedStatus := by decide +kernel

theorem skippedStatus_inj {f g : Feature} (h : skippedStatus f = skippedStatus g) : f = g :=
  Feature.name_injective (by simpa [skippedStatus] using h)

/-! ### The kernels -/

/-- What becomes of a compiled kernel that is tried after `n` requests. -/
def verdictAt (caps : Capabilities) (refuses : Nat → Bool) (n : Nat) (k : Kernel) : Verdict :=
  match caps.missing? k.requires with
  | some missing => .skipped missing
  | none => if refuses n then .failed refusal else .passed

/-- Kernels that the processor does not support are skipped without a request. -/
def verdicts (caps : Capabilities) (refuses : Nat → Bool) : Nat → List Kernel → List Verdict
  | _, [] => []
  | n, k :: ks =>
    verdictAt caps refuses n k
      :: verdicts caps refuses (n + if k.isSupported caps then 1 else 0) ks

section

variable {caps : Capabilities} {host : Host} {k : Kernel}

theorem attempt_validateKernel_runs (hk : k ∈ Registry.compiled.kernels) (caps : Capabilities)
    (host : Host) :
    ∃ r, Runs (Session.attempt (validateKernel k caps .standard)) host r
        (if k.isSupported caps then 1 else 0) [] ∧
      Verdict.ofResult r = verdictAt caps host.refuses host.requested k := by
  rw [verdictAt, Kernel.isSupported, Capabilities.supports]
  rcases hmissing : caps.missing? k.requires with _ | missing
  · cases hrefuses : host.refuses host.requested with
    | true =>
      refine ⟨.error refusal, ⟨host.asked 1, ?_, host.advances_asked 1⟩, rfl⟩
      exact Session.attempt_of_error (validateKernel_of_refused hmissing hrefuses)
    | false =>
      have hpassed : validateKernel k caps .standard host = .ok () (host.tried k) := by
        rw [validateKernel_of_granted hmissing hrefuses, Kernel.judged,
          Registry.verdict_compiled hk]
      refine ⟨.ok (), ⟨host.tried k, Session.attempt_of_ok hpassed, ?_⟩, rfl⟩
      exact (Host.Logs.tried host k).advances rfl rfl
  · refine ⟨.error (.unsupportedKernel k.name missing), ⟨host, ?_, ?_⟩, rfl⟩
    · exact Session.attempt_of_error (validateKernel_of_missing hmissing)
    · exact (Host.Logs.refl host).advances rfl rfl

/-- One row of the table. -/
theorem tryKernel_runs (hk : k ∈ Registry.compiled.kernels) (host : Host) :
    Runs (tryKernel caps .standard k) host (verdictAt caps host.refuses host.requested k)
      (if k.isSupported caps then 1 else 0)
      [row k (verdictAt caps host.refuses host.requested k).text] := by
  obtain ⟨r, hattempt, hr⟩ := attempt_validateKernel_runs hk caps host
  rw [← hr]
  exact hattempt.bind (m := 0) fun host' _ _ => (Runs.print _ host').map _

/-- All rows, with one request for each supported kernel. -/
theorem mapM_tryKernel_runs {ks : List Kernel} (hks : ∀ k ∈ ks, k ∈ Registry.compiled.kernels)
    (host : Host) :
    Runs (ks.mapM (tryKernel caps .standard)) host
      (verdicts caps host.refuses host.requested ks) (ks.countP (·.isSupported caps))
      (List.zipWith (fun k v => row k v.text) ks
        (verdicts caps host.refuses host.requested ks)) := by
  induction ks generalizing host with
  | nil => exact Runs.pure [] host
  | cons k ks ih =>
    obtain ⟨hk, hks⟩ := List.forall_mem_cons.mp hks
    rw [List.mapM_cons, List.countP_cons, Nat.add_comm, verdicts, List.zipWith_cons_cons]
    refine (tryKernel_runs hk host).bind fun host' hrefuses hrequested => ?_
    have hrest := ih hks host'
    rw [hrefuses, hrequested] at hrest
    exact hrest.map _

end

/-- The verdicts of the compiled kernels, if their requests begin after `n` others. -/
def tableAt (caps : Capabilities) (refuses : Nat → Bool) (n : Nat) : List Verdict :=
  verdicts caps refuses n Registry.compiled.kernels

/-- The lines of the compiled kernels with these verdicts. -/
def rows (vs : List Verdict) : List String :=
  List.zipWith (fun k v => row k v.text) Registry.compiled.kernels vs

theorem printTable_runs (caps : Capabilities) (host : Host) :
    Runs (printTable caps .standard) host
      ((tableAt caps host.refuses host.requested).count .passed,
        (tableAt caps host.refuses host.requested).countP Verdict.isFailure)
      (Registry.compiled.kernels.countP (·.isSupported caps))
      (headerLine :: rows (tableAt caps host.refuses host.requested)) := by
  rw [← header_eq, ← Nat.zero_add (Registry.compiled.kernels.countP _)]
  refine (Runs.print header host).bind fun host' hrefuses hrequested => ?_
  rw [← hrefuses, ← Nat.add_zero host.requested, ← hrequested]
  exact (mapM_tryKernel_runs (fun _ hk => hk) host').map fun vs =>
    (vs.count Verdict.passed, vs.countP Verdict.isFailure)

/-! ### What the table tells -/

/-- `f` is the first of the required features that is missing. -/
def Misses (caps : Capabilities) (k : Kernel) (f : Feature) : Prop :=
  ∃ before after, k.requires = before ++ f :: after ∧ (∀ g ∈ before, caps.has g = true) ∧
    caps.has f = false

/-- The lines for some kernels, of which the supported ones are tried from request `n` on, and
how many of them pass and fail. -/
inductive Table (caps : Capabilities) (refuses : Nat → Bool) :
    Nat → List Kernel → List String → Nat → Nat → Prop
  | nil (n : Nat) : Table caps refuses n [] [] 0 0
  /-- A kernel that lacks a feature makes no request. -/
  | skipped {n passed failed : Nat} {k : Kernel} {ks : List Kernel} {f : Feature} {line : String}
      {lines : List String} : Misses caps k f → IsRow k (skippedStatus f) line →
      Table caps refuses n ks lines passed failed →
      Table caps refuses n (k :: ks) (line :: lines) passed failed
  /-- The request is granted. -/
  | passed {n passed failed : Nat} {k : Kernel} {ks : List Kernel} {line : String}
      {lines : List String} : (∀ f ∈ k.requires, caps.has f = true) → refuses n = false →
      IsRow k okStatus line → Table caps refuses (n + 1) ks lines passed failed →
      Table caps refuses n (k :: ks) (line :: lines) (passed + 1) failed
  /-- The request is refused. -/
  | failed {n passed failed : Nat} {k : Kernel} {ks : List Kernel} {line : String}
      {lines : List String} : (∀ f ∈ k.requires, caps.has f = true) → refuses n = true →
      IsRow k failedStatus line → Table caps refuses (n + 1) ks lines passed failed →
      Table caps refuses n (k :: ks) (line :: lines) passed (failed + 1)

section

variable {caps : Capabilities} {refuses : Nat → Bool} {n passed failed : Nat} {k : Kernel}
  {ks : List Kernel} {lines : List String} {f : Feature}

theorem Misses.isSupported (h : Misses caps k f) : k.isSupported caps = false := by
  rw [Kernel.isSupported, Capabilities.supports, Capabilities.missing?_eq_some_iff.mpr h]
  rfl

theorem Misses.eq {g : Feature} (h : Misses caps k f) (h' : Misses caps k g) : f = g :=
  Option.some.inj ((Capabilities.missing?_eq_some_iff.mpr h).symm.trans
    (Capabilities.missing?_eq_some_iff.mpr h'))

theorem Misses.countP_cons (h : Misses caps k f) :
    (k :: ks).countP (·.isSupported caps) = ks.countP (·.isSupported caps) :=
  List.countP_cons_of_neg (by rw [h.isSupported]; exact Bool.false_ne_true)

theorem countP_cons_of_has (h : ∀ f ∈ k.requires, caps.has f = true) :
    (k :: ks).countP (·.isSupported caps) = ks.countP (·.isSupported caps) + 1 :=
  have hsupported : k.isSupported caps = true := Capabilities.permits_iff.mpr h
  List.countP_cons_of_pos hsupported

/-- Every kernel passes, fails or is skipped, and only a request can make it fail. -/
theorem table_verdicts (caps : Capabilities) (refuses : Nat → Bool) (n : Nat) (ks : List Kernel) :
    Table caps refuses n ks
      (List.zipWith (fun k v => row k v.text) ks (verdicts caps refuses n ks))
      ((verdicts caps refuses n ks).count .passed)
      ((verdicts caps refuses n ks).countP Verdict.isFailure) := by
  induction ks generalizing n with
  | nil => exact .nil n
  | cons k ks ih =>
    rw [verdicts, List.zipWith_cons_cons, verdictAt, Kernel.isSupported, Capabilities.supports]
    rcases hmissing : caps.missing? k.requires with _ | missing
    · have hhas := Capabilities.missing?_eq_none_iff.mp hmissing
      cases hrefuses : refuses n with
      | false =>
        simp only [Bool.false_eq_true, if_false, Option.isNone_none, if_true]
        rw [List.count_cons_self, List.countP_cons_of_neg (by decide)]
        exact .passed hhas hrefuses (isRow_row k okStatus) (ih (n + 1))
      | true =>
        simp only [if_true, Option.isNone_none]
        rw [List.count_cons_of_ne (by decide), List.countP_cons_of_pos rfl]
        exact .failed hhas hrefuses (failedStatus_eq ▸ isRow_row k _) (ih (n + 1))
    · have hmisses : Misses caps k missing := Capabilities.missing?_eq_some_iff.mp hmissing
      simp only [Option.isNone_some, Bool.false_eq_true, if_false]
      rw [List.count_cons_of_ne (by simp), List.countP_cons_of_neg Bool.false_ne_true]
      exact .skipped hmisses (isRow_row k (skippedStatus missing)) (ih n)

namespace Table

/-- A line says that a feature is missing if it is the first one missing. -/
theorem skipped_iff (h : Table caps refuses n ks lines passed failed) :
    List.Forall₂ (fun k line => ∀ f, IsRow k (skippedStatus f) line ↔ Misses caps k f)
      ks lines := by
  have hother : ∀ {k : Kernel} {status line : String} (f : Feature),
      (∀ f ∈ k.requires, caps.has f = true) → IsRow k status line → skippedStatus f ≠ status →
      (IsRow k (skippedStatus f) line ↔ Misses caps k f) := by
    intro k status line f hhas hrow hne
    refine iff_of_false (fun hskipped => hne (hskipped.status_unique hrow)) fun hmisses => ?_
    have hsupported : k.isSupported caps = true := Capabilities.permits_iff.mpr hhas
    rw [hmisses.isSupported] at hsupported
    cases hsupported
  induction h with
  | nil => exact .nil
  | @skipped n passed failed k ks f line lines hmisses hrow _ ih =>
    refine .cons (fun g => ⟨fun hskipped => ?_, fun hmisses' => ?_⟩) ih
    · exact skippedStatus_inj (hrow.status_unique hskipped) ▸ hmisses
    · exact hmisses.eq hmisses' ▸ hrow
  | passed hhas _ hrow _ ih =>
    exact .cons (fun f => hother f hhas hrow (skippedStatus_ne f (by decide +kernel))) ih
  | failed hhas _ hrow _ ih =>
    exact .cons (fun f => hother f hhas hrow (skippedStatus_ne f (by decide +kernel))) ih

theorem passed_add_failed (h : Table caps refuses n ks lines passed failed) :
    passed + failed = ks.countP (·.isSupported caps) := by
  induction h with
  | nil => rfl
  | skipped hmisses _ _ ih =>
    rw [hmisses.countP_cons, ih]
  | passed hhas _ _ _ ih =>
    rw [countP_cons_of_has hhas, ← ih]
    omega
  | failed hhas _ _ _ ih =>
    rw [countP_cons_of_has hhas, ← ih, Nat.add_assoc]

theorem failed_eq (h : Table caps refuses n ks lines passed failed) :
    failed = (List.range' n (ks.countP (·.isSupported caps))).countP refuses := by
  induction h with
  | nil => rfl
  | skipped hmisses _ _ ih =>
    rw [hmisses.countP_cons, ← ih]
  | passed hhas hrefuses _ _ ih =>
    rw [countP_cons_of_has hhas, List.range'_succ,
      List.countP_cons_of_neg (by rw [hrefuses]; exact Bool.false_ne_true), ← ih]
  | failed hhas hrefuses _ _ ih =>
    rw [countP_cons_of_has hhas, List.range'_succ,
      List.countP_cons_of_pos hrefuses, ← ih]

end Table

end

/-- The lines tell the truth of the kernels, and the numbers of the lines. -/
structure Tabulates (caps : Capabilities) (refuses : Nat → Bool) (n : Nat) (ks : List Kernel)
    (lines : List String) (passed failed : Nat) : Prop where
  table : Table caps refuses n ks lines passed failed
  skipped_iff :
    List.Forall₂ (fun k line => ∀ f, IsRow k (skippedStatus f) line ↔ Misses caps k f) ks lines
  passed_add_failed : passed + failed = ks.countP (·.isSupported caps)
  failed_eq : failed = (List.range' n (ks.countP (·.isSupported caps))).countP refuses

theorem Table.tabulates {caps : Capabilities} {refuses : Nat → Bool} {n passed failed : Nat}
    {ks : List Kernel} {lines : List String} (h : Table caps refuses n ks lines passed failed) :
    Tabulates caps refuses n ks lines passed failed :=
  ⟨h, h.skipped_iff, h.passed_add_failed, h.failed_eq⟩

/-! ### After the table -/

section

variable {caps : Capabilities} {dispatcher : Dispatcher} {host₁ host₁' : Host}

/-- A later selection makes what an earlier one makes of the same answers. -/
theorem new_runs (host : Host) (hnew : Dispatcher.new caps host₁ = .ok dispatcher host₁')
    (hanswers : ∀ i, host.refuses (host.requested + i) = host₁.refuses (host₁.requested + i)) :
    ∃ n, Runs (Dispatcher.new caps) host dispatcher n [] := by
  obtain ⟨host', hrun⟩ := Dispatcher.new_of_answers hnew hanswers
  have hgrows : host.Grows caps.Permits host' := (Dispatcher.moves_withRegistry _).of_ok hrun
  obtain ⟨n, hrequested⟩ := Nat.exists_eq_add_of_le hgrows.requested
  refine ⟨n, host', hrun, ?_⟩
  obtain ⟨-, -, ⟨-, -, -, hlogs⟩ | ⟨-, tried, -, -, hlogs⟩⟩ := Dispatcher.withRegistry_ok hrun
  · exact hlogs.advances hgrows.refuses hrequested
  · exact hlogs.advances hgrows.refuses hrequested

/-- What is printed of the small input. -/
def smokeLine : String := "f32 -> f16 [3c7e, 3c7f, 3c80, 3c81] (crc 3117248445)"

theorem smallInput_halves :
    smallInput.map F16.ofF32 = #[0x3c7e, 0x3c7f, 0x3c80, 0x3c81] := by decide +kernel

/-- The small input comes out right of whatever dispatcher was made. -/
theorem smokeTest_runs (hnew : Dispatcher.new caps host₁ = .ok dispatcher host₁') (host : Host) :
    Runs (smokeTest dispatcher) host () 0 [smokeLine] := by
  have hfaithful : dispatcher.Faithful := fun d k hk =>
    Construction.honoursPrefix_of_build (c := .new caps) hnew
      (fun _ h => absurd h List.not_mem_nil) hk
  obtain ⟨calls, hconvert⟩ : ∃ calls, dispatcher.convert .f32ToF16 smallInput
      { dst := Array.replicate smallInput.size 0 } = .ok () ⟨smallInput.map F16.ofF32, calls⟩ :=
    Dispatcher.convert_run hfaithful rfl
  have hsum : checksum .u16 (smallInput.map F16.ofF32) = smallChecksum := by
    rw [smallInput_halves]
    decide +kernel
  have hverify : verify (dispatcher.selected .f32ToF16) .u16 (smallInput.map F16.ofF32)
      smallChecksum = .ok () := if_pos hsum
  have hprint : "f32 -> f16 [" ++ ", ".intercalate
      ((smallInput.map F16.ofF32).toList.map (hex4 ·.toNat)) ++ "] (crc "
        ++ toString (checksum .u16 (smallInput.map F16.ofF32)).toNat ++ ")" = smokeLine := by
    rw [hsum, smallInput_halves]
    decide +kernel
  refine (Runs.convertInto hconvert host).bind (m := 0) fun host' _ _ => ?_
  show Runs (Session.check (verify (dispatcher.selected .f32ToF16) .u16
    (smallInput.map F16.ofF32) smallChecksum) >>= fun _ => Session.print _) _ _ _ _
  rw [hverify, ← hprint]
  exact Runs.print _ host'

end

/-! ### The whole report -/

/-- The line under the table. -/
def countsLine (passed failed : Nat) : String :=
  toString passed ++ " kernels passed, " ++ toString failed ++ " failed"

/-- The line of a direction and what serves it, the direction in 20 columns. -/
def choiceLine (dispatcher : Dispatcher) (d : Direction) : String :=
  d.name ++ blanks (20 - d.name.length) ++ " -> " ++ dispatcher.selected d

/-- What a report prints that comes to its end, with these lines in its table. -/
def transcript (caps : Capabilities) (lines : List String) (passed failed : Nat)
    (dispatcher : Dispatcher) : List String :=
  ("cpu: " ++ caps.describe) :: headerLine :: lines ++ countsLine passed failed :: "" ::
    Direction.all.map (choiceLine dispatcher) ++ [smokeLine]

section

variable {detected caps : Capabilities} {disabled? : Option String} {dispatcher : Dispatcher}
  {host host₁ : Host}

/-- With reference data, a report comes to its end. -/
theorem run_runs (hknown : ∀ piece ∈ listed disabled?, Feature.ofName? piece ≠ none)
    (hgranted : ∀ i < 3, host.refuses (host.requested + i) = false)
    (hcaps : masked detected disabled? = caps) {vs : List Verdict}
    (hvs : tableAt caps host.refuses (host.requested + 10) = vs)
    (hnew : Dispatcher.new caps (host.asked (10 + Registry.compiled.kernels.countP
      (·.isSupported caps))) = .ok dispatcher host₁) :
    ∃ host', run detected disabled? host
        = .ok (((List.range' (host.requested + 3) 7).map (!host.refuses ·)).all id
            && vs.countP Verdict.isFailure == 0) host' ∧
      host'.printed = host.printed ++ transcript caps (rows vs) (vs.count .passed)
        (vs.countP Verdict.isFailure) dispatcher := by
  -- after each step, `a` says how far the host has come from the first one
  obtain ⟨h₁, hconfigure, a⟩ := hcaps ▸ configure_runs hknown detected host
  obtain ⟨h₂, hcpu, a⟩ := (Runs.print ("cpu: " ++ caps.describe) h₁).after a
  have hgranted : ∀ i < 3, h₂.refuses (h₂.requested + i) = false := by
    rw [a.refuses, a.requested]
    exact hgranted
  obtain ⟨h₃, hmake, a⟩ := (Runs.make hgranted).after a
  have hscalars := mapM_tryScalar_runs Direction.all h₃
  rw [a.refuses, a.requested] at hscalars
  obtain ⟨h₄, hscalars, a⟩ := hscalars.after a
  have htable := printTable_runs caps h₄
  rw [a.refuses, a.requested] at htable
  obtain ⟨h₅, htable, a⟩ := htable.after a
  obtain ⟨h₆, hcounts, a⟩ := (Runs.print (countsLine (vs.count .passed)
    (vs.countP Verdict.isFailure)) h₅).after a
  have hanswers : ∀ i, h₆.refuses (h₆.requested + i) = host.refuses
      (host.requested + (10 + Registry.compiled.kernels.countP (·.isSupported caps)) + i) := by
    intro i
    rw [a.refuses, a.requested]
    rfl
  obtain ⟨n, hselect⟩ := new_runs h₆ hnew hanswers
  obtain ⟨h₇, hselect, a⟩ := hselect.after a
  obtain ⟨h₈, hblank, a⟩ := (Runs.print "" h₇).after a
  have hline : (fun d : Direction => Text.padRight 20 d.name ++ " -> " ++ dispatcher.selected d)
      = choiceLine dispatcher := funext fun d => by rw [padRight_eq, choiceLine]
  have hchoices := Runs.forM_print (choiceLine dispatcher) Direction.all h₈
  rw [← hline] at hchoices
  obtain ⟨h₉, hchosen, a⟩ := hchoices.after a
  obtain ⟨h₁₀, hsmoke, a⟩ := (smokeTest_runs hnew h₉).after a
  subst hcaps hvs
  refine ⟨h₁₀, ?_, ?_⟩
  · rw [run, run_bind_of_ok hconfigure, run_bind_of_ok hcpu, run_bind_of_ok hmake,
      run_bind_of_ok hscalars]
    refine (run_bind_of_ok htable).trans ((run_bind_of_ok hcounts).trans ?_)
    rw [run_bind_of_ok hselect, run_bind_of_ok hblank, run_bind_of_ok hchosen,
      run_bind_of_ok hsmoke]
    rfl
  · rw [a.printed, transcript]
    simp only [List.nil_append, List.append_nil, List.append_assoc, List.cons_append]
    rfl

theorem run_of_unknown (h : ∃ piece ∈ listed disabled?, Feature.ofName? piece = none)
    (detected : Capabilities) (host : Host) :
    ∃ cause, run detected disabled? host = .error (.error cause) host := by
  obtain ⟨cause, hconfigure⟩ := configure_of_unknown h detected host
  exact ⟨cause, run_bind_of_error hconfigure⟩

/-- Without reference data, a report ends before the table. -/
theorem run_of_refused (detected : Capabilities)
    (hknown : ∀ piece ∈ listed disabled?, Feature.ofName? piece ≠ none)
    (hrefused : ∃ i < 3, host.refuses (host.requested + i) = true)
    (hcaps : masked detected disabled? = caps) :
    ∃ cause host', run detected disabled? host = .error (.error cause) host' ∧
      host'.printed = host.printed ++ ["cpu: " ++ caps.describe] := by
  obtain ⟨h₁, hconfigure, a⟩ := hcaps ▸ configure_runs hknown detected host
  obtain ⟨h₂, hcpu, a⟩ := (Runs.print ("cpu: " ++ caps.describe) h₁).after a
  have hrefused : ∃ i < 3, h₂.refuses (h₂.requested + i) = true := by
    rw [a.refuses, a.requested]
    exact hrefused
  obtain ⟨n, -, hmake⟩ := ReferenceSet.make_of_refused hrefused
  subst hcaps
  refine ⟨refusal, h₂.asked n, ?_, a.printed⟩
  rw [run, run_bind_of_ok hconfigure, run_bind_of_ok hcpu, run_bind_of_error hmake]

/-! ### The exit code -/

theorem exitCode_of_error {cause : Error}
    (h : run detected disabled? host = .error (.error cause) host₁) :
    exitCode detected disabled? host = .ok 2 (host₁.logged (.aborted cause)) :=
  run_bind_of_ok (Session.attempt_of_error h)

theorem exitCode_of_ok {healthy : Bool} (h : run detected disabled? host = .ok healthy host₁) :
    exitCode detected disabled? host = .ok (if healthy then 0 else 1) host₁ := by
  rw [exitCode, run_bind_of_ok (Session.attempt_of_ok h)]
  cases healthy
  · rfl
  · rfl

/-- A report finds nothing wrong if none of its requests from the scalar conversions to the last
supported kernel is refused. -/
theorem healthy_iff {refuses : Nat → Bool} {n s failed : Nat}
    (h : failed = (List.range' (n + 10) s).countP refuses) :
    (((List.range' (n + 3) 7).map (!refuses ·)).all id && failed == 0) = true ↔
      ∀ i, 3 ≤ i → i < 10 + s → refuses (n + i) = false := by
  rw [Bool.and_eq_true, beq_iff_eq, h, List.countP_eq_zero, List.all_map, List.all_eq_true]
  constructor
  · rintro ⟨hscalars, hkernels⟩ i hle hlt
    rcases Nat.lt_or_ge i 10 with hi | hi
    · have hmem : n + i ∈ List.range' (n + 3) 7 := List.mem_range'_1.mpr ⟨by omega, by omega⟩
      exact (Bool.not_eq_true' _).mp (hscalars _ hmem)
    · exact Bool.eq_false_iff.mpr (hkernels (n + i) (List.mem_range'_1.mpr ⟨by omega, by omega⟩))
  · intro hall
    have hgranted : ∀ j, n + 3 ≤ j → j < n + 10 + s → refuses j = false := by
      intro j hle hlt
      obtain ⟨i, rfl⟩ := Nat.exists_eq_add_of_le (by omega : n ≤ j)
      exact hall i (by omega) (by omega)
    refine ⟨fun j hj => ?_, fun j hj => ?_⟩
    · obtain ⟨hle, hlt⟩ := List.mem_range'_1.mp hj
      exact (Bool.not_eq_true' _).mpr (hgranted j hle (by omega))
    · obtain ⟨hle, hlt⟩ := List.mem_range'_1.mp hj
      exact Bool.eq_false_iff.mp (hgranted j (by omega) hlt)

/-- A report that is given up prints no table. -/
theorem exitCode_of_hindered (detected : Capabilities)
    (h : (∃ piece ∈ listed disabled?, Feature.ofName? piece = none) ∨
      ∃ i < 3, host.refuses (host.requested + i) = true) :
    ∃ host', exitCode detected disabled? host = .ok 2 host' ∧
      (host'.printed = host.printed ∨
        host'.printed = host.printed ++ ["cpu: " ++ (masked detected disabled?).describe]) := by
  by_cases hunknown : ∃ piece ∈ listed disabled?, Feature.ofName? piece = none
  · obtain ⟨cause, hrun⟩ := run_of_unknown hunknown detected host
    exact ⟨_, exitCode_of_error hrun, .inl ((Host.Logs.refl host).logged _).printed⟩
  · have hknown : ∀ piece ∈ listed disabled?, Feature.ofName? piece ≠ none :=
      fun piece hpiece hnone => hunknown ⟨piece, hpiece, hnone⟩
    obtain ⟨cause, host₁, hrun, hprinted⟩ :=
      run_of_refused detected hknown (h.resolve_left hunknown) rfl
    exact ⟨_, exitCode_of_error hrun,
      .inr (((Host.Logs.refl host₁).logged _).printed.trans hprinted)⟩

/-- A report that is not hindered prints its table and tells whether it found something wrong. -/
theorem exitCode_of_unhindered (detected : Capabilities)
    (hknown : ∀ piece ∈ listed disabled?, Feature.ofName? piece ≠ none)
    (hgranted : ∀ i < 3, host.refuses (host.requested + i) = false)
    (hcaps : masked detected disabled? = caps) {s : Nat}
    (hs : Registry.compiled.kernels.countP (·.isSupported caps) = s) :
    ∃ (healthy : Bool) (host' : Host),
      exitCode detected disabled? host = .ok (if healthy then 0 else 1) host' ∧
      (healthy = true ↔
        ∀ i, 3 ≤ i → i < 10 + s → host.refuses (host.requested + i) = false) ∧
      ∃ lines passed failed dispatcher host₁,
        Tabulates caps host.refuses (host.requested + 10) Registry.compiled.kernels lines
          passed failed ∧
        Dispatcher.new caps (host.asked (10 + s)) = .ok dispatcher host₁ ∧
        host'.printed = host.printed ++ transcript caps lines passed failed dispatcher := by
  subst hs
  obtain ⟨dispatcher, host₁, hnew⟩ := Dispatcher.new_run caps
    (host.asked (10 + Registry.compiled.kernels.countP (·.isSupported caps)))
  obtain ⟨host', hrun, hprinted⟩ := run_runs hknown hgranted hcaps rfl hnew
  have htable := (table_verdicts caps host.refuses (host.requested + 10)
    Registry.compiled.kernels).tabulates
  exact ⟨_, host', exitCode_of_ok hrun, healthy_iff htable.failed_eq, _, _, _, dispatcher, host₁,
    htable, hnew, hprinted⟩

end

/-- **The exit code and the table tell the truth.**  Let `s` of the compiled kernels be supported
by what is left of the processor.  The exit code is 2 exactly if a listed piece names no feature or
the reference data are refused, and then no table is printed.  Otherwise it is 1 if one of the
`7 + s` requests after the reference data is refused, and 0 if none is; the table has a line for
every compiled kernel, with its name and what became of it, and the last `s` of these requests are
those of the kernels that are not skipped.  What the selection is refused afterwards does not
matter. -/
theorem exitCode_eq (detected : Capabilities) (disabled? : Option String) (host : Host) :
    ∃ caps s code host', caps = masked detected disabled? ∧
      s = Registry.compiled.kernels.countP (·.isSupported caps) ∧
      exitCode detected disabled? host = .ok code host' ∧
      (code = 2 ↔ (∃ piece ∈ listed disabled?, Feature.ofName? piece = none) ∨
        ∃ i < 3, host.refuses (host.requested + i) = true) ∧
      (code = 2 → host'.printed = host.printed ∨
        host'.printed = host.printed ++ ["cpu: " ++ caps.describe]) ∧
      (code ≠ 2 →
        (code = 1 ↔ ∃ i, 3 ≤ i ∧ i < 10 + s ∧ host.refuses (host.requested + i) = true) ∧
        (code = 0 ↔ ∀ i, 3 ≤ i → i < 10 + s → host.refuses (host.requested + i) = false) ∧
        ∃ lines passed failed dispatcher host₁,
          Tabulates caps host.refuses (host.requested + 10) Registry.compiled.kernels lines
            passed failed ∧
          Dispatcher.new caps (host.asked (10 + s)) = .ok dispatcher host₁ ∧
          host'.printed = host.printed ++ transcript caps lines passed failed dispatcher) := by
  by_cases hhindered : (∃ piece ∈ listed disabled?, Feature.ofName? piece = none) ∨
      ∃ i < 3, host.refuses (host.requested + i) = true
  · obtain ⟨host', hcode, hprinted⟩ := exitCode_of_hindered detected hhindered
    exact ⟨_, _, 2, host', rfl, rfl, hcode, ⟨fun _ => hhindered, fun _ => rfl⟩,
      fun _ => hprinted, fun h => absurd rfl h⟩
  · obtain ⟨hknown, hnotrefused⟩ := not_or.mp hhindered
    have hknown : ∀ piece ∈ listed disabled?, Feature.ofName? piece ≠ none :=
      fun piece hpiece hnone => hknown ⟨piece, hpiece, hnone⟩
    have hgranted := (host.granted_or_refused 3).resolve_right hnotrefused
    obtain ⟨healthy, host', hcode, hhealthy, htable⟩ :=
      exitCode_of_unhindered detected hknown hgranted rfl rfl
    cases healthy with
    | true =>
      have hall := hhealthy.mp rfl
      refine ⟨_, _, 0, host', rfl, rfl, hcode, ⟨nofun, fun h => absurd h hhindered⟩, nofun,
        fun _ => ⟨⟨nofun, ?_⟩, ⟨fun _ => hall, fun _ => rfl⟩, htable⟩⟩
      rintro ⟨i, hle, hlt, hrefused⟩
      rw [hall i hle hlt] at hrefused
      cases hrefused
    | false =>
      have hsome := mt hhealthy.mpr Bool.false_ne_true
      refine ⟨_, _, 1, host', rfl, rfl, hcode, ⟨nofun, fun h => absurd h hhindered⟩, nofun,
        fun _ => ⟨⟨fun _ => ?_, fun _ => rfl⟩, ⟨nofun, fun h => absurd h hsome⟩, htable⟩⟩
      simpa only [not_forall, exists_prop, Bool.not_eq_false] using hsome

end Report

end Lanewise

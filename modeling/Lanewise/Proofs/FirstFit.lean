/-
Lanewise/Proofs/FirstFit.lean

Selection is a first fit, also where memory is refused.

What validation says of a kernel depends on the host only through its next request
(`validateKernel_eq`).  So the candidates of a direction are tried at consecutive
requests, each once, until one passes, and none after it is touched: this is
`FirstFit`, and `Tries` is what the tries have cost.  The requests of one direction begin
where those of the directions before it have ended (`FirstFits`), hence

    a refusal in one direction shifts the requests of all later ones

(`withRegistry_firstFit`).  The step is `select_ok`, the run over the directions
`foldlM_select_ok`, and `withRegistry_ok` puts the reference data before them.  What is
logged meanwhile is known line by line (`turns`).  That a selection comes to an end at all
needs that no kernel is harmful.
-/
import Lanewise.Proofs.Dispatch

namespace Lanewise

/-! ### One try -/

/-- What validation says of a kernel on a host that has made `n` requests. -/
def validationAt (caps : Capabilities) (refuses : Nat → Bool) (n : Nat) (k : Kernel) :
    Except Stop Unit :=
  match validateKernel k caps .standard ⟨refuses, n, #[]⟩ with
  | .ok () _ => .ok ()
  | .error s _ => .error s

/-- The kernels that are called if they are tried one after another from a request on. -/
def granted (refuses : Nat → Bool) : Nat → List Kernel → List Kernel
  | _, [] => []
  | n, k :: ks => if refuses n then granted refuses (n + 1) ks else k :: granted refuses (n + 1) ks

theorem granted_append (refuses : Nat → Bool) (n : Nat) (ks ks' : List Kernel) :
    granted refuses n (ks ++ ks')
      = granted refuses n ks ++ granted refuses (n + ks.length) ks' := by
  induction ks generalizing n with
  | nil => rfl
  | cons k ks ih =>
    have hnext : n + (k :: ks).length = n + 1 + ks.length := by
      rw [List.length_cons]
      omega
    rw [List.cons_append, granted, granted, ih, hnext]
    split_ifs
    · rfl
    · rfl

/-- What is logged of kernels that are tried one after another from a request on. -/
def rejections (caps : Capabilities) (refuses : Nat → Bool) : Nat → List Kernel → List Log.Line
  | _, [] => []
  | n, k :: ks =>
    match validationAt caps refuses n k with
    | .error (.error cause) => .rejected k.name cause :: rejections caps refuses (n + 1) ks
    | _ => rejections caps refuses (n + 1) ks

/-- The printed texts, oldest first. -/
def Host.printed (host : Host) : List String :=
  host.journal.toList.filterMap fun
    | .printed text => some text
    | _ => none

/-- From one host to another, the kernels were tried one after another, each with one request. -/
structure Host.Tries (host host' : Host) (ks : List Kernel) : Prop where
  refuses : host'.refuses = host.refuses
  requested : host'.requested = host.requested + ks.length
  calls : host'.calls = host.calls ++ granted host.refuses host.requested ks

/-- From one host to another, the lines were logged, and nothing was printed. -/
structure Host.Logs (host host' : Host) (lines : List Log.Line) : Prop where
  lines : host'.lines = host.lines ++ lines
  printed : host'.printed = host.printed

namespace Host

variable {host host' host'' : Host} {ks ks' : List Kernel} {k : Kernel}
  {lines lines' : List Log.Line}

theorem calls_logged (host : Host) (line : Log.Line) : (host.logged line).calls = host.calls := by
  rw [calls, logged, Array.toList_push, List.filterMap_append]
  exact List.append_nil _

theorem calls_tried (host : Host) (k : Kernel) : (host.tried k).calls = host.calls ++ [k] := by
  rw [calls, tried, Array.toList_append, List.filterMap_append, Array.toList_map]
  rfl

namespace Tries

theorem refl (host : Host) : host.Tries host [] := ⟨rfl, rfl, (List.append_nil _).symm⟩

theorem append (h : host.Tries host' ks) (h' : host'.Tries host'' ks') :
    host.Tries host'' (ks ++ ks') where
  refuses := h'.refuses.trans h.refuses
  requested := by rw [h'.requested, h.requested, List.length_append, Nat.add_assoc]
  calls := by
    rw [h'.calls, h.calls, h.refuses, h.requested, granted_append, List.append_assoc]

theorem logged (h : host.Tries host' ks) (line : Log.Line) : host.Tries (host'.logged line) ks :=
  ⟨h.refuses, h.requested, (calls_logged host' line).trans h.calls⟩

end Tries

namespace Logs

theorem refl (host : Host) : host.Logs host [] := ⟨(List.append_nil _).symm, rfl⟩

theorem append (h : host.Logs host' lines) (h' : host'.Logs host'' lines') :
    host.Logs host'' (lines ++ lines') where
  lines := by rw [h'.lines, h.lines, List.append_assoc]
  printed := h'.printed.trans h.printed

theorem logged (h : host.Logs host' lines) (line : Log.Line) :
    host.Logs (host'.logged line) (lines ++ [line]) := by
  refine h.append ⟨?_, ?_⟩
  · rw [Host.lines, Host.logged, Array.toList_push, List.filterMap_append]
    rfl
  · rw [Host.printed, Host.logged, Array.toList_push, List.filterMap_append]
    exact List.append_nil _

/-- A call is neither logged nor printed. -/
theorem tried (host : Host) (k : Kernel) : host.Logs (host.tried k) [] := by
  constructor
  · rw [Host.lines, Host.tried, Array.toList_append, List.filterMap_append, Array.toList_map]
    rfl
  · rw [Host.printed, Host.tried, Array.toList_append, List.filterMap_append, Array.toList_map]
    exact List.append_nil _

end Logs

/-- The host after a try. -/
def afterTry (host : Host) (k : Kernel) : Host :=
  if host.refuses host.requested then host.asked 1 else host.tried k

theorem tries_afterTry (host : Host) (k : Kernel) : host.Tries (host.afterTry k) [k] := by
  rw [afterTry]
  split_ifs with hrefuses
  · refine ⟨rfl, rfl, ?_⟩
    rw [granted, if_pos hrefuses]
    exact (List.append_nil _).symm
  · refine ⟨rfl, rfl, ?_⟩
    rw [granted, if_neg hrefuses]
    exact calls_tried host k

theorem logs_afterTry (host : Host) (k : Kernel) : host.Logs (host.afterTry k) [] := by
  rw [afterTry]
  split_ifs
  · exact ⟨(List.append_nil _).symm, rfl⟩
  · exact Logs.tried host k

end Host

section

variable {caps : Capabilities} {refuses : Nat → Bool} {n : Nat} {host : Host} {k : Kernel}

theorem validationAt_eq (hcaps : caps.Permits k) :
    validationAt caps refuses n k = if refuses n then .error (.error refusal) else k.verdict := by
  have hmissing := Capabilities.permits_iff_missing?.mp hcaps
  rw [validationAt]
  cases hrefuses : refuses n with
  | true => rw [validateKernel_of_refused hmissing hrefuses, if_pos rfl]
  | false =>
    rw [validateKernel_of_granted hmissing hrefuses, Kernel.judged, if_neg Bool.false_ne_true]
    rcases k.verdict with s | _ <;> rfl

/-- **A try** depends on the host through its next request only. -/
theorem validateKernel_eq (hcaps : caps.Permits k) (host : Host) :
    validateKernel k caps .standard host
      = match validationAt caps host.refuses host.requested k with
        | .ok () => .ok () (host.afterTry k)
        | .error s => .error s (host.afterTry k) := by
  have hmissing := Capabilities.permits_iff_missing?.mp hcaps
  rw [validationAt_eq hcaps, Host.afterTry]
  cases hrefuses : host.refuses host.requested with
  | true => exact validateKernel_of_refused hmissing hrefuses
  | false => exact validateKernel_of_granted hmissing hrefuses

end

/-! ### First fit -/

/-- The kernels are tried at consecutive requests, and every one is rejected. -/
def RejectedFrom (caps : Capabilities) (refuses : Nat → Bool) (n : Nat) (ks : List Kernel) : Prop :=
  ∀ i k, ks[i]? = some k → ∃ cause, validationAt caps refuses (n + i) k = .error (.error cause)

/-- Of the candidates, tried at consecutive requests from `n` on, the first that passes is
chosen: which were tried, and which was chosen. -/
inductive FirstFit (caps : Capabilities) (refuses : Nat → Bool) (n : Nat) :
    List Kernel → List Kernel → Option Kernel → Prop where
  | chosen {rejected untried : List Kernel} {k : Kernel}
    (hrejected : RejectedFrom caps refuses n rejected)
    (hpasses : validationAt caps refuses (n + rejected.length) k = .ok ()) :
    FirstFit caps refuses n (rejected ++ k :: untried) (rejected ++ [k]) (some k)
  | scalar {rejected : List Kernel} (hrejected : RejectedFrom caps refuses n rejected) :
    FirstFit caps refuses n rejected rejected none

section

variable {caps : Capabilities} {refuses : Nat → Bool} {n : Nat} {k : Kernel}
  {ks tried : List Kernel} {kernel? : Option Kernel}

theorem RejectedFrom.nil : RejectedFrom caps refuses n [] := by
  intro i k h
  cases h

theorem RejectedFrom.cons {cause : Error}
    (hcause : validationAt caps refuses n k = .error (.error cause))
    (h : RejectedFrom caps refuses (n + 1) ks) : RejectedFrom caps refuses n (k :: ks) := by
  intro i k' hk'
  cases i with
  | zero =>
    obtain rfl := Option.some.inj hk'
    exact ⟨cause, hcause⟩
  | succ i =>
    rw [Nat.add_comm i 1, ← Nat.add_assoc]
    exact h i k' hk'

theorem FirstFit.cons {cause : Error}
    (hcause : validationAt caps refuses n k = .error (.error cause))
    (h : FirstFit caps refuses (n + 1) ks tried kernel?) :
    FirstFit caps refuses n (k :: ks) (k :: tried) kernel? := by
  cases h with
  | chosen hrejected hpasses =>
    refine .chosen (hrejected.cons hcause) ?_
    rw [List.length_cons, Nat.add_comm _ 1, ← Nat.add_assoc]
    exact hpasses
  | scalar hrejected => exact .scalar (hrejected.cons hcause)

/-- Nothing is chosen exactly if all candidates are rejected. -/
theorem FirstFit.eq_none_iff (h : FirstFit caps refuses n ks tried kernel?) :
    kernel? = none ↔ RejectedFrom caps refuses n ks := by
  cases h with
  | @chosen rejected untried k hrejected hpasses =>
    refine ⟨fun hnone => absurd hnone (Option.some_ne_none k), fun hall => ?_⟩
    have hplace : (rejected ++ k :: untried)[rejected.length]? = some k := by
      rw [List.getElem?_append_right le_rfl, Nat.sub_self, List.getElem?_cons_zero]
    obtain ⟨cause, hcause⟩ := hall rejected.length k hplace
    rw [hpasses] at hcause
    cases hcause
  | scalar hrejected => exact ⟨fun _ => hrejected, fun _ => rfl⟩

end

namespace Dispatcher

section

variable {registry : Registry} {caps : Capabilities} {host host' : Host}

/-- Candidates are tried until one passes. -/
theorem firstValid_ok {ks : List Kernel} (h : ∀ k ∈ ks, caps.Permits k) {kernel? : Option Kernel}
    (hrun : firstValid caps .standard ks host = .ok kernel? host') :
    ∃ tried, FirstFit caps host.refuses host.requested ks tried kernel? ∧ host.Tries host' tried ∧
      host.Logs host' (rejections caps host.refuses host.requested tried) := by
  induction ks generalizing host with
  | nil =>
    cases hrun
    exact ⟨[], .scalar .nil, .refl _, .refl _⟩
  | cons k rest ih =>
    have hvalid := validateKernel_eq (h k List.mem_cons_self) host
    have htries := host.tries_afterTry k
    have hlogs := host.logs_afterTry k
    rcases hjudged : validationAt caps host.refuses host.requested k with (cause | f) | _
    · -- rejected: the rest is tried from the next request on
      rw [hjudged] at hvalid
      rw [firstValid_of_error hvalid] at hrun
      obtain ⟨tried, hfit, hspent, hlater⟩ :=
        ih (fun k' hk' => h k' (List.mem_cons_of_mem k hk')) hrun
      have hlogged := htries.logged (.rejected k.name cause)
      have hwritten := (hlogs.logged (.rejected k.name cause)).append hlater
      rw [hlogged.refuses, hlogged.requested] at hfit hwritten
      refine ⟨k :: tried, hfit.cons hjudged, hlogged.append hspent, ?_⟩
      rw [rejections, hjudged]
      exact hwritten
    · rw [hjudged] at hvalid
      rw [firstValid_of_fault hvalid] at hrun
      cases hrun
    · rw [hjudged] at hvalid
      rw [firstValid_of_ok hvalid] at hrun
      cases hrun
      refine ⟨[k], .chosen .nil hjudged, htries, ?_⟩
      rw [rejections, hjudged]
      exact hlogs

/-- The choice for one direction. -/
theorem select_ok {d : Direction} {table table' : Direction → Option Kernel}
    (hrun : select registry caps .standard table d host = .ok table' host') :
    ∃ tried kernel?, table' = assign table d kernel? ∧
      FirstFit caps host.refuses host.requested (registry.candidates d caps) tried kernel? ∧
      host.Tries host' tried ∧
      host.Logs host' (rejections caps host.refuses host.requested tried
        ++ [.selected d (nameOf kernel?)]) := by
  obtain ⟨kernel?, host₁, hfirst, hrest⟩ := ok_of_run_bind hrun
  cases hrest
  obtain ⟨tried, hfit, htries, hlogs⟩ := firstValid_ok
    (fun k hk => (Registry.mem_candidates.mp hk).2.1) hfirst
  exact ⟨tried, kernel?, rfl, hfit, htries.logged _, hlogs.logged _⟩

end

/-- The kernels that are tried before a direction has its turn. -/
def triedBefore (ds : List Direction) (tried : Direction → List Kernel) (d : Direction) :
    List Kernel :=
  (ds.takeWhile (· ≠ d)).flatMap tried

section

variable {ds : List Direction} {d d' : Direction} {tried : Direction → List Kernel}

theorem triedBefore_cons_self : triedBefore (d :: ds) tried d = [] := by
  rw [triedBefore, List.takeWhile_cons_of_neg (by simp), List.flatMap_nil]

theorem triedBefore_cons_of_ne (h : d ≠ d') :
    triedBefore (d :: ds) tried d' = tried d ++ triedBefore ds tried d' := by
  rw [triedBefore, List.takeWhile_cons_of_pos (by simpa using h), List.flatMap_cons, triedBefore]

/-- What is noted for a direction does not matter where it has no turn. -/
theorem flatMap_update (h : d ∉ ds) (first : List Kernel) :
    ds.flatMap (Function.update tried d first) = ds.flatMap tried := by
  exact List.flatMap_congr fun d' hd' =>
    Function.update_of_ne (ne_of_mem_of_not_mem hd' h) _ _

theorem triedBefore_update (h : d ∉ ds) (first : List Kernel) :
    triedBefore ds (Function.update tried d first) d' = triedBefore ds tried d' :=
  flatMap_update (fun hd => h ((List.takeWhile_sublist _).subset hd)) first

end

section

variable {registry : Registry} {caps : Capabilities} {host host' : Host}

/-- The directions take their first fits in turn, the requests of each where those of the
directions before it have ended. -/
def FirstFits (registry : Registry) (caps : Capabilities) (refuses : Nat → Bool) (n : Nat)
    (tried : Direction → List Kernel) (table : Direction → Option Kernel) (ds : List Direction) :
    Prop :=
  ∀ d ∈ ds, FirstFit caps refuses (n + (triedBefore ds tried d).length)
    (registry.candidates d caps) (tried d) (table d)

section

variable {refuses : Nat → Bool} {n : Nat} {tried : Direction → List Kernel}
  {table : Direction → Option Kernel} {d : Direction} {ds : List Direction}

theorem firstFits_cons (h : d ∉ ds) :
    FirstFits registry caps refuses n tried table (d :: ds) ↔
      FirstFit caps refuses n (registry.candidates d caps) (tried d) (table d) ∧
        FirstFits registry caps refuses (n + (tried d).length) tried table ds := by
  have hlater : ∀ d' ∈ ds, n + (triedBefore (d :: ds) tried d').length
      = n + (tried d).length + (triedBefore ds tried d').length := by
    intro d' hd'
    have hne : d ≠ d' := (ne_of_mem_of_not_mem hd' h).symm
    rw [triedBefore_cons_of_ne hne, List.length_append, Nat.add_assoc]
  rw [FirstFits, List.forall_mem_cons, triedBefore_cons_self, List.length_nil, Nat.add_zero]
  refine and_congr_right fun _ => forall₂_congr fun d' hd' => ?_
  rw [hlater d' hd']

theorem firstFits_update (h : d ∉ ds) (first : List Kernel) :
    FirstFits registry caps refuses n (Function.update tried d first) table ds ↔
      FirstFits registry caps refuses n tried table ds := by
  refine forall₂_congr fun d' hd' => ?_
  rw [triedBefore_update h, Function.update_of_ne (ne_of_mem_of_not_mem hd' h)]

end

/-- What is logged while the directions have their turns, each after its own rejections. -/
def turns (caps : Capabilities) (refuses : Nat → Bool) (n : Nat)
    (tried : Direction → List Kernel) (table : Direction → Option Kernel) (ds : List Direction) :
    List Log.Line :=
  ds.flatMap fun d =>
    rejections caps refuses (n + (triedBefore ds tried d).length) (tried d)
      ++ [.selected d (nameOf (table d))]

section

variable {refuses : Nat → Bool} {n : Nat} {tried : Direction → List Kernel}
  {table : Direction → Option Kernel} {d : Direction} {ds : List Direction}

theorem turns_cons (h : d ∉ ds) :
    turns caps refuses n tried table (d :: ds)
      = rejections caps refuses n (tried d) ++ .selected d (nameOf (table d))
        :: turns caps refuses (n + (tried d).length) tried table ds := by
  have hlater : ds.flatMap (fun d' => rejections caps refuses
      (n + (triedBefore (d :: ds) tried d').length) (tried d')
        ++ [.selected d' (nameOf (table d'))])
      = turns caps refuses (n + (tried d).length) tried table ds := by
    refine List.flatMap_congr fun d' hd' => ?_
    have hne : d ≠ d' := (ne_of_mem_of_not_mem hd' h).symm
    rw [triedBefore_cons_of_ne hne, List.length_append, Nat.add_assoc]
  rw [turns, List.flatMap_cons, hlater, triedBefore_cons_self, List.length_nil, Nat.add_zero,
    List.append_assoc]
  rfl

theorem turns_update (h : d ∉ ds) (first : List Kernel) :
    turns caps refuses n (Function.update tried d first) table ds
      = turns caps refuses n tried table ds := by
  refine List.flatMap_congr fun d' hd' => ?_
  rw [triedBefore_update h, Function.update_of_ne (ne_of_mem_of_not_mem hd' h)]

end

/-- The choices for some directions, one after another. -/
theorem foldlM_select_ok {ds : List Direction} (hds : ds.Nodup)
    {table table' : Direction → Option Kernel}
    (hrun : ds.foldlM (select registry caps .standard) table host = .ok table' host') :
    ∃ tried : Direction → List Kernel,
      FirstFits registry caps host.refuses host.requested tried table' ds ∧
      (∀ d ∉ ds, table' d = table d) ∧ host.Tries host' (ds.flatMap tried) ∧
      host.Logs host' (turns caps host.refuses host.requested tried table' ds) := by
  induction ds generalizing table host with
  | nil =>
    cases hrun
    exact ⟨fun _ => [], fun d hd => absurd hd List.not_mem_nil, fun _ _ => rfl, .refl _, .refl _⟩
  | cons d ds ih =>
    obtain ⟨hd, hds⟩ := List.nodup_cons.mp hds
    rw [List.foldlM_cons] at hrun
    obtain ⟨table₁, host₁, hselect, hfold⟩ := ok_of_run_bind hrun
    obtain ⟨first, kernel?, rfl, hfit, htries, hlogs⟩ := select_ok hselect
    obtain ⟨tried, hlater, hkept, hspent, hwritten⟩ := ih hds hfold
    rw [htries.refuses, htries.requested] at hlater hwritten
    have hd' : table' d = kernel? := by
      rw [hkept d hd, assign, if_pos rfl]
    -- the direction does not come again, so what was tried for it can be noted beside the rest
    refine ⟨Function.update tried d first, ?_, ?_, ?_, ?_⟩
    · rw [firstFits_cons hd, firstFits_update hd, Function.update_self, hd']
      exact ⟨hfit, hlater⟩
    · intro d' hnot
      obtain ⟨hne, hnot⟩ := not_or.mp (mt List.mem_cons.mpr hnot)
      rw [hkept d' hnot, assign, if_neg hne]
    · rw [List.flatMap_cons, Function.update_self, flatMap_update hd]
      exact htries.append hspent
    · rw [turns_cons hd, turns_update hd, Function.update_self, hd', List.append_cons]
      exact hlogs.append hwritten

/-- **What a selection comes to**: without the reference data nothing is tried, and with them the
directions have their turns. -/
theorem withRegistry_ok {dispatcher : Dispatcher}
    (hrun : withRegistry caps registry host = .ok dispatcher host') :
    dispatcher.capabilities = caps ∧ host'.refuses = host.refuses ∧
    (((∃ i < 3, host.refuses (host.requested + i) = true) ∧ (∀ d, dispatcher.kernel d = none) ∧
        host'.calls = host.calls ∧
        host.Logs host' [.selecting caps registry.size, .fixtureUnavailable refusal]) ∨
      (∀ i < 3, host.refuses (host.requested + i) = false) ∧
        ∃ tried : Direction → List Kernel,
          FirstFits registry caps host.refuses (host.requested + 3) tried dispatcher.kernel
            Direction.all ∧
          (host.asked 3).Tries host' (Direction.all.flatMap tried) ∧
          host.Logs host' (.selecting caps registry.size
            :: turns caps host.refuses (host.requested + 3) tried dispatcher.kernel
              Direction.all)) := by
  have hselecting := (Host.Logs.refl host).logged (.selecting caps registry.size)
  rcases host.granted_or_refused 3 with hgranted | hrefused
  · have hmake : ReferenceSet.make (host.logged (.selecting caps registry.size))
        = .ok .standard ((host.logged (.selecting caps registry.size)).asked 3) :=
      ReferenceSet.make_of_granted hgranted
    rw [withRegistry_of_made hmake] at hrun
    obtain ⟨table, host₁, hfold, hrest⟩ := ok_of_run_bind hrun
    cases hrest
    obtain ⟨tried, hfits, -, htries, hlogs⟩ := foldlM_select_ok (by decide : Direction.all.Nodup)
      hfold
    refine ⟨rfl, htries.refuses, .inr ⟨hgranted, tried, hfits, ?_, ?_⟩⟩
    · refine ⟨htries.refuses, htries.requested, ?_⟩
      rw [htries.calls]
      exact congrArg (· ++ _) (host.calls_logged _)
    · exact hselecting.append ⟨hlogs.lines, hlogs.printed⟩
  · obtain ⟨n, -, hmake⟩ : ∃ n ≤ 3, ReferenceSet.make (host.logged (.selecting caps registry.size))
        = .error (.error refusal) ((host.logged (.selecting caps registry.size)).asked n) :=
      ReferenceSet.make_of_refused hrefused
    rw [withRegistry_of_refused hmake] at hrun
    cases hrun
    refine ⟨rfl, rfl, .inl ⟨hrefused, fun _ => rfl, ?_, ?_⟩⟩
    · rw [Host.calls_logged]
      exact host.calls_logged _
    · have hasked : host.Logs ((host.logged (.selecting caps registry.size)).asked n)
          [.selecting caps registry.size] := ⟨hselecting.lines, hselecting.printed⟩
      exact hasked.logged (.fixtureUnavailable refusal)

/-- A selection on reference data that were made. -/
theorem withRegistry_of_granted (h : ∀ k ∈ registry.kernels, caps.Permits k → ¬ k.Harmful)
    (hgranted : ∀ i < 3, host.refuses (host.requested + i) = false) :
    ∃ (dispatcher : Dispatcher) (tried : Direction → List Kernel) (host' : Host),
      withRegistry caps registry host = .ok dispatcher host' ∧ dispatcher.capabilities = caps ∧
      (∀ d, FirstFit caps host.refuses
        (host.requested + 3 + (triedBefore Direction.all tried d).length)
        (registry.candidates d caps) (tried d) (dispatcher.kernel d)) ∧
      host'.refuses = host.refuses ∧
      host'.requested = host.requested + 3 + (Direction.all.flatMap tried).length ∧
      host'.calls = host.calls
        ++ granted host.refuses (host.requested + 3) (Direction.all.flatMap tried) := by
  obtain ⟨dispatcher, host', hrun⟩ := withRegistry_of_harmless h host
  obtain ⟨hcaps, hrefuses, ⟨⟨i, hi, hrefused⟩, -⟩ | ⟨-, tried, hfits, htries, -⟩⟩ :=
    withRegistry_ok hrun
  · rw [hgranted i hi] at hrefused
    cases hrefused
  · exact ⟨dispatcher, tried, host', hrun, hcaps, fun d => hfits d d.mem_all, hrefuses,
      htries.requested, htries.calls⟩

/-- Without reference data nothing is tried. -/
theorem withRegistry_of_refused_reference (registry : Registry) (caps : Capabilities)
    (hrefused : ∃ i < 3, host.refuses (host.requested + i) = true) :
    ∃ host', withRegistry caps registry host = .ok (scalarOn caps) host' ∧
      host'.calls = host.calls := by
  obtain ⟨n, -, hmake⟩ : ∃ n ≤ 3, ReferenceSet.make (host.logged (.selecting caps registry.size))
      = .error (.error refusal) ((host.logged (.selecting caps registry.size)).asked n) :=
    ReferenceSet.make_of_refused hrefused
  refine ⟨_, withRegistry_of_refused hmake, ?_⟩
  rw [Host.calls_logged]
  exact host.calls_logged _

/-- **Selection is a first fit.**  It always makes a dispatcher.  If one of the three reference
buffers is refused, no kernel is called or chosen.  Otherwise the directions have their turns in
their order, and each takes the first of its candidates that passes at the request reached
there; the candidates before it are tried once each, and those after it not at all. -/
theorem withRegistry_firstFit (registry : Registry) (caps : Capabilities)
    (h : ∀ k ∈ registry.kernels, caps.Permits k → ¬ k.Harmful) (host : Host) :
    ∃ dispatcher host', withRegistry caps registry host = .ok dispatcher host' ∧
      dispatcher.capabilities = caps ∧
      ((∃ i < 3, host.refuses (host.requested + i) = true) →
        (∀ d, dispatcher.kernel d = none) ∧ host'.calls = host.calls) ∧
      ((∀ i < 3, host.refuses (host.requested + i) = false) →
        ∃ tried : Direction → List Kernel,
          (∀ d, FirstFit caps host.refuses
              (host.requested + 3 + (triedBefore Direction.all tried d).length)
              (registry.candidates d caps) (tried d) (dispatcher.kernel d) ∧
            (dispatcher.kernel d = none ↔ RejectedFrom caps host.refuses
              (host.requested + 3 + (triedBefore Direction.all tried d).length)
              (registry.candidates d caps))) ∧
          host'.requested = host.requested + 3 + (Direction.all.flatMap tried).length ∧
          host'.calls = host.calls
            ++ granted host.refuses (host.requested + 3) (Direction.all.flatMap tried)) := by
  rcases host.granted_or_refused 3 with hgranted | hrefused
  · obtain ⟨dispatcher, tried, host', hrun, hcaps, hfits, -, hrequested, hcalls⟩ :=
      withRegistry_of_granted h hgranted
    refine ⟨dispatcher, host', hrun, hcaps, ?_, fun _ => ?_⟩
    · rintro ⟨i, hi, hrefused⟩
      rw [hgranted i hi] at hrefused
      cases hrefused
    · exact ⟨tried, fun d => ⟨hfits d, (hfits d).eq_none_iff⟩, hrequested, hcalls⟩
  · obtain ⟨host', hrun, hcalls⟩ := withRegistry_of_refused_reference registry caps hrefused
    refine ⟨scalarOn caps, host', hrun, rfl, fun _ => ⟨fun _ => rfl, hcalls⟩, fun hgranted => ?_⟩
    obtain ⟨i, hi, hrefused⟩ := hrefused
    rw [hgranted i hi] at hrefused
    cases hrefused

end

/-- Two entries of the exact sample, on a host that refuses the first request after the reference
data: the selection comes to an end as it should. -/
theorem withRegistry_twice_refused :
    ∃ dispatcher host' tried,
      withRegistry (.ofList [.sse41]) ⟨[exactSample, exactSample]⟩ (Host.refusing [3])
        = .ok dispatcher host' ∧
      (∀ d, FirstFit (.ofList [.sse41]) (Host.refusing [3]).refuses
        (3 + (triedBefore Direction.all tried d).length)
        ((⟨[exactSample, exactSample]⟩ : Registry).candidates d (.ofList [.sse41])) (tried d)
        (dispatcher.kernel d)) ∧
      host'.requested = 3 + (Direction.all.flatMap tried).length ∧
      host'.calls = granted (Host.refusing [3]).refuses 3 (Direction.all.flatMap tried) := by
  have hharmless : ∀ k ∈ [exactSample, exactSample], Capabilities.Permits (.ofList [.sse41]) k →
      ¬ k.Harmful := by
    intro k hk _
    obtain rfl : k = exactSample := by simpa using hk
    exact exactSample_not_harmful
  have hgranted : ∀ i < 3,
      (Host.refusing [3]).refuses ((Host.refusing [3]).requested + i) = false := by decide
  obtain ⟨dispatcher, host', hrun, -, -, hmade⟩ := withRegistry_firstFit
    ⟨[exactSample, exactSample]⟩ (.ofList [.sse41]) hharmless (Host.refusing [3])
  obtain ⟨tried, hfits, hrequested, hcalls⟩ := hmade hgranted
  refine ⟨dispatcher, host', tried, hrun, fun d => ?_, ?_, hcalls⟩
  · have hfit := (hfits d).1
    rwa [show (Host.refusing [3]).requested + 3 = 3 from rfl] at hfit
  · rwa [show (Host.refusing [3]).requested + 3 = 3 from rfl] at hrequested

end Dispatcher

end Lanewise

/-
Lanewise/Proofs/Trace.lean

The log of a construction tells how it came about.

Reading the log from its beginning and keeping for each direction the last kernel that
was `selected` or `pinned` for it gives what the dispatcher says serves the direction,

    replay log d  =  dispatcher.selected d,

and the rejections between two choices are those of the candidates before the second one,
in order, each with its cause (`Account`).  Both hold of every construction that comes to
an end (`Construction.log_of_build`), also where the reference data are refused and
nothing is selected, and where the choice for one direction is superseded by pinning.

What is logged is known line by line (`withRegistry_ok`), so all that is left is to read
it: in the turns of the directions, a line `selected` stands at the end of its own turn
and nowhere else (`account_of_turns`).
-/
import Lanewise.Proofs.Pinning

namespace Lanewise

/-! ### Reading a log -/

namespace Log

/-- What serves a direction after one more line. -/
def Line.supersede (d : Direction) (serving : String) : Line → String
  | .selected d' name => if d' = d then name else serving
  | .pinned name d' => if d' = d then name else serving
  | _ => serving

/-- What serves a direction after all lines: the last choice, or the scalar conversion. -/
def replay (lines : List Line) (d : Direction) : String :=
  lines.foldl (Line.supersede d) "scalar"

/-- The rejections that wait for a choice, after one more line. -/
def Line.wait (waiting : List Line) : Line → List Line
  | .selected .. => []
  | .rejected name cause => waiting ++ [.rejected name cause]
  | _ => waiting

/-- The rejections since the last `selected` line. -/
def waiting (lines : List Line) : List Line := lines.foldl Line.wait []

/-- No line is less important than `debug`. -/
theorem atLevel_debug (lines : List Line) : atLevel .debug lines = lines := by
  refine List.filter_eq_self.mpr fun line _ => ?_
  cases line <;> rfl

theorem atLevel_info (lines : List Line) :
    atLevel .info lines = (atLevel .debug lines).filter fun line => line.level ≠ .debug := by
  rw [atLevel_debug]
  refine List.filter_congr fun line _ => ?_
  cases line <;> rfl

theorem atLevel_warn (lines : List Line) :
    atLevel .warn lines = (atLevel .debug lines).filter fun line =>
      line.level ≠ .debug ∧ line.level ≠ .info := by
  rw [atLevel_debug]
  refine List.filter_congr fun line _ => ?_
  cases line <;> rfl

end Log

/-! ### The turns of the directions -/

section

variable {caps : Capabilities} {refuses : Nat → Bool} {n : Nat} {k : Kernel} {ks : List Kernel}

theorem mem_rejections {line : Log.Line} (h : line ∈ rejections caps refuses n ks) :
    ∃ name cause, line = .rejected name cause := by
  induction ks generalizing n with
  | nil => cases h
  | cons k ks ih =>
    rw [rejections] at h
    split at h
    · rcases List.mem_cons.mp h with rfl | hlater
      · exact ⟨_, _, rfl⟩
      · exact ih hlater
    · exact ih h

/-- The kernel that passes is tried after the rejected ones, and adds nothing to them. -/
theorem rejections_concat (hrejected : RejectedFrom caps refuses n ks)
    (hpasses : validationAt caps refuses (n + ks.length) k = .ok ()) :
    rejections caps refuses n (ks ++ [k]) = rejections caps refuses n ks := by
  induction ks generalizing n with
  | nil =>
    rw [List.length_nil, Nat.add_zero] at hpasses
    simp only [List.nil_append, rejections, hpasses]
  | cons k' ks ih =>
    obtain ⟨cause, hcause⟩ := hrejected 0 k' rfl
    rw [Nat.add_zero] at hcause
    rw [List.length_cons, Nat.add_comm _ 1, ← Nat.add_assoc] at hpasses
    rw [List.cons_append, rejections, rejections, hcause, ih hrejected.tail hpasses]

/-- What a choice and the rejections before it tell of the candidates, tried at consecutive
requests from `n` on: each rejected one with its cause, and then the name of the one that passed,
or of the scalar conversion if all were rejected. -/
inductive Account (caps : Capabilities) (refuses : Nat → Bool) (n : Nat) :
    List Kernel → List Kernel → List Log.Line → String → Prop where
  | chosen {rejected untried : List Kernel} {k : Kernel}
    (hrejected : RejectedFrom caps refuses n rejected)
    (hpasses : validationAt caps refuses (n + rejected.length) k = .ok ()) :
    Account caps refuses n (rejected ++ k :: untried) (rejected ++ [k])
      (rejections caps refuses n rejected) k.name
  | scalar {rejected : List Kernel} (hrejected : RejectedFrom caps refuses n rejected) :
    Account caps refuses n rejected rejected (rejections caps refuses n rejected) "scalar"

theorem FirstFit.account {tried : List Kernel} {kernel? : Option Kernel}
    (h : FirstFit caps refuses n ks tried kernel?) :
    Account caps refuses n ks tried (rejections caps refuses n tried)
      (Dispatcher.nameOf kernel?) := by
  cases h with
  | chosen hrejected hpasses =>
    rw [rejections_concat hrejected hpasses]
    exact .chosen hrejected hpasses
  | scalar hrejected => exact .scalar hrejected

end

namespace Dispatcher

section

variable {registry : Registry} {caps : Capabilities} {refuses : Nat → Bool} {n : Nat}
  {tried : Direction → List Kernel} {table : Direction → Option Kernel}
  {ds : List Direction} {d : Direction}

/-- Rejections say nothing of what serves. -/
theorem foldl_supersede_rejections (ks : List Kernel) (serving : String) :
    (rejections caps refuses n ks).foldl (Log.Line.supersede d) serving = serving := by
  induction ks generalizing n with
  | nil => rfl
  | cons k ks ih =>
    rw [rejections]
    split
    · rw [List.foldl_cons]
      exact ih
    · exact ih

theorem foldl_supersede_turns (hds : ds.Nodup) (serving : String) :
    (turns caps refuses n tried table ds).foldl (Log.Line.supersede d) serving
      = if d ∈ ds then nameOf (table d) else serving := by
  induction ds generalizing n serving with
  | nil => rfl
  | cons d' ds ih =>
    obtain ⟨hd', hds⟩ := List.nodup_cons.mp hds
    rw [turns_cons hd', List.foldl_append, foldl_supersede_rejections, List.foldl_cons, ih hds]
    by_cases hmem : d ∈ ds
    · rw [if_pos hmem, if_pos (List.mem_cons_of_mem d' hmem)]
    · rw [if_neg hmem, Log.Line.supersede]
      by_cases hsame : d' = d
      · rw [if_pos hsame, if_pos (List.mem_cons.mpr (.inl hsame.symm)), hsame]
      · rw [if_neg hsame, if_neg (mt List.mem_cons.mp (not_or.mpr ⟨Ne.symm hsame, hmem⟩))]

theorem foldl_wait_rejections (ks : List Kernel) (waiting : List Log.Line) :
    (rejections caps refuses n ks).foldl Log.Line.wait waiting
      = waiting ++ rejections caps refuses n ks := by
  induction ks generalizing n waiting with
  | nil => exact (List.append_nil _).symm
  | cons k ks ih =>
    rw [rejections]
    split
    · rw [List.foldl_cons, Log.Line.wait, ih, List.append_assoc]
      rfl
    · exact ih waiting

/-- A choice stands at the end of its turn, after the rejections of its own direction. -/
theorem account_of_turns (hds : ds.Nodup) (h : FirstFits registry caps refuses n tried table ds)
    {before after : List Log.Line} {name : String}
    (hlines : turns caps refuses n tried table ds = before ++ .selected d name :: after) :
    d ∈ ds ∧ Account caps refuses (n + (triedBefore ds tried d).length) (registry.candidates d caps)
      (tried d) (Log.waiting before) name := by
  induction ds generalizing n before with
  | nil =>
    cases before <;> cases hlines
  | cons d' ds ih =>
    obtain ⟨hd', hds⟩ := List.nodup_cons.mp hds
    obtain ⟨hfit, hlater⟩ := (firstFits_cons hd').mp h
    rw [turns_cons hd'] at hlines
    -- either the line is the choice of this turn, or it comes in a later one
    have hcut : (before = rejections caps refuses n (tried d') ∧
          Log.Line.selected d name = .selected d' (nameOf (table d'))) ∨
        ∃ rest, before = rejections caps refuses n (tried d')
            ++ .selected d' (nameOf (table d')) :: rest ∧
          turns caps refuses (n + (tried d').length) tried table ds
            = rest ++ .selected d name :: after := by
      rcases List.append_eq_append_iff.mp hlines with ⟨rest, hbefore, hrest⟩ | ⟨rest, hall, hrest⟩
      · rcases rest with _ | ⟨line, rest⟩
        · rw [List.append_nil] at hbefore
          cases hrest
          exact .inl ⟨hbefore, rfl⟩
        · obtain ⟨rfl, hlater⟩ := List.cons.inj hrest
          exact .inr ⟨rest, hbefore, hlater⟩
      · rcases rest with _ | ⟨line, rest⟩
        · rw [List.append_nil] at hall
          cases hrest
          exact .inl ⟨hall.symm, rfl⟩
        · cases hrest
          have hmem : Log.Line.selected d name ∈ rejections caps refuses n (tried d') := by
            rw [hall]
            exact List.mem_append_right before List.mem_cons_self
          obtain ⟨_, _, hline⟩ := mem_rejections hmem
          cases hline
    rcases hcut with ⟨rfl, hchoice⟩ | ⟨rest, rfl, hrest⟩
    · cases hchoice
      rw [triedBefore_cons_self, Log.waiting, foldl_wait_rejections]
      exact ⟨List.mem_cons_self, hfit.account⟩
    · obtain ⟨hmem, haccount⟩ := ih hds hlater hrest
      have hne : d' ≠ d := (ne_of_mem_of_not_mem hmem hd').symm
      rw [Nat.add_assoc, ← List.length_append, ← triedBefore_cons_of_ne hne] at haccount
      refine ⟨List.mem_cons_of_mem d' hmem, ?_⟩
      rwa [Log.waiting, List.foldl_append]

/-! ### Whole logs -/

/-- A log that can be replayed to a table, and whose choices are accounted for. -/
structure Tells (registry : Registry) (caps : Capabilities) (refuses : Nat → Bool) (n : Nat)
    (tried : Direction → List Kernel) (table : Direction → Option Kernel)
    (log : List Log.Line) : Prop where
  replay : ∀ d, Log.replay log d = nameOf (table d)
  account : ∀ before d name after, log = before ++ .selected d name :: after →
    Account caps refuses (n + (triedBefore Direction.all tried d).length)
      (registry.candidates d caps) (tried d) (Log.waiting before) name

/-- Without a choice there is nothing to account for. -/
theorem tells_of_unselected {log : List Log.Line} (htable : ∀ d, table d = none)
    (hreplay : ∀ d, Log.replay log d = "scalar") (h : ∀ d name, .selected d name ∉ log) :
    Tells registry caps refuses n tried table log := by
  refine ⟨fun d => ?_, ?_⟩
  · rw [hreplay, htable, nameOf]
  · rintro before d name after rfl
    exact absurd (List.mem_append_right before List.mem_cons_self) (h d name)

theorem tells_turns (h : FirstFits registry caps refuses n tried table Direction.all)
    (size : Nat) :
    Tells registry caps refuses n tried table
      (.selecting caps size :: turns caps refuses n tried table Direction.all) := by
  have hall : Direction.all.Nodup := by decide
  refine ⟨fun d => ?_, fun before d name after hlog => ?_⟩
  · exact (foldl_supersede_turns hall "scalar").trans (if_pos d.mem_all)
  · rcases before with _ | ⟨line, before⟩
    · cases hlog
    · obtain ⟨rfl, hlater⟩ := List.cons.inj hlog
      exact (account_of_turns hall h hlater).2

/-- A pinned kernel supersedes the choice for its direction. -/
theorem Tells.pinned {log : List Log.Line} (h : Tells registry caps refuses n tried table log)
    (k : Kernel) :
    Tells registry caps refuses n tried (assign table k.direction (some k))
      (log ++ [.pinned k.name k.direction]) := by
  refine ⟨fun d => ?_, fun before d name after hlog => ?_⟩
  · have hlast : Log.replay (log ++ [.pinned k.name k.direction]) d
        = if k.direction = d then k.name else Log.replay log d := by
      rw [Log.replay, List.foldl_append]
      rfl
    rw [hlast, h.replay, assign]
    by_cases hd : k.direction = d
    · rw [if_pos hd, if_pos hd.symm, nameOf]
    · rw [if_neg hd, if_neg (Ne.symm hd)]
  · rcases List.eq_nil_or_concat after with rfl | ⟨after, line, rfl⟩
    · cases (List.append_inj' hlog rfl).2
    · rw [List.concat_eq_append, ← List.cons_append, ← List.append_assoc] at hlog
      exact h.account before d name after (List.append_inj' hlog rfl).1

theorem tells_withRegistry {dispatcher : Dispatcher} {host host' : Host}
    (hrun : withRegistry caps registry host = .ok dispatcher host') :
    ∃ tried log, host.Logs host' log ∧
      Tells registry caps host.refuses (host.requested + 3) tried dispatcher.kernel log := by
  obtain ⟨-, -, ⟨-, hnone, -, hlogs⟩ | ⟨-, tried, hfits, -, hlogs⟩⟩ := withRegistry_ok hrun
  · refine ⟨fun _ => [], _, hlogs, tells_of_unselected hnone (fun _ => rfl) fun d name => ?_⟩
    simp
  · exact ⟨tried, _, hlogs, tells_turns hfits registry.size⟩

end

end Dispatcher

/-! ### Constructions -/

namespace Construction

/-- The requests that come before the turns of the directions: the reference data, and before
them those of pinning. -/
def preliminary : Construction → Nat
  | scalar | new _ | withRegistry _ _ => 3
  | withKernel _ _ => 7

/-- What is logged, put together from the four ways to make a dispatcher. -/
theorem tells_of_build {c : Construction} {host host' : Host} {dispatcher : Dispatcher}
    (hbuild : c.build host = .ok dispatcher host') :
    ∃ tried log, host.Logs host' log ∧ Dispatcher.Tells c.registry c.capabilities host.refuses
      (host.requested + c.preliminary) tried dispatcher.kernel log := by
  rcases c with _ | caps | ⟨caps, registry⟩ | ⟨caps, name⟩
  · cases hbuild
    exact ⟨fun _ => [], [], .refl host,
      Dispatcher.tells_of_unselected (fun _ => rfl) (fun _ => rfl) fun _ _ => List.not_mem_nil⟩
  · exact Dispatcher.tells_withRegistry hbuild
  · exact Dispatcher.tells_withRegistry hbuild
  · obtain ⟨k, inner, host₁, -, -, hnew, rfl, rfl⟩ := Dispatcher.withKernel_ok hbuild
    obtain ⟨tried, log, hlogs, htells⟩ := Dispatcher.tells_withRegistry hnew
    -- trying the kernel was neither logged nor printed
    have hcalled := Host.Logs.tried (host.asked 3) k
    have htried : host.Logs ((host.asked 3).tried k) [] := ⟨hcalled.lines, hcalled.printed⟩
    exact ⟨tried, _, (htried.append hlogs).logged _, htells.pinned k⟩

/-- **The log is a faithful trace.**  Replaying it gives what serves each direction.  The
rejections before a choice are those of the candidates before the chosen one, or of all where the
choice is the scalar conversion, each with its cause at the request that it was tried with.  A less
detailed log is the detailed one without the lines of the levels left out. -/
theorem log_of_build {c : Construction} {host host' : Host} {dispatcher : Dispatcher}
    (hbuild : c.build host = .ok dispatcher host') :
    ∃ log, host'.lines = host.lines ++ log ∧
      (∀ d, Log.replay (Log.atLevel .debug log) d = dispatcher.selected d) ∧
      (∃ tried : Direction → List Kernel, ∀ before d name after,
        Log.atLevel .debug log = before ++ .selected d name :: after →
        Account c.capabilities host.refuses
          (host.requested + c.preliminary + (Dispatcher.triedBefore Direction.all tried d).length)
          (c.registry.candidates d c.capabilities) (tried d) (Log.waiting before) name) ∧
      Log.atLevel .info log
        = (Log.atLevel .debug log).filter (fun line => line.level ≠ .debug) ∧
      Log.atLevel .warn log
        = (Log.atLevel .debug log).filter fun line =>
            line.level ≠ .debug ∧ line.level ≠ .info := by
  obtain ⟨tried, log, hlogs, htells⟩ := tells_of_build hbuild
  refine ⟨log, hlogs.lines, fun d => ?_, ⟨tried, fun before d name after hlog => ?_⟩,
    Log.atLevel_info log, Log.atLevel_warn log⟩
  · rw [Log.atLevel_debug]
    exact htells.replay d
  · rw [Log.atLevel_debug] at hlog
    exact htells.account before d name after hlog

/-- The exact sample is chosen from twice, and its first try is refused memory: the log of the
whole session can be replayed, and the lines of the selection account for the rejection. -/
theorem log_refused_once :
    ∃ dispatcher host',
      (Construction.withRegistry (.ofList [.sse41])
        ⟨[Dispatcher.exactSample, Dispatcher.exactSample]⟩).build (Host.refusing [3])
        = .ok dispatcher host' ∧
      (∀ d, Log.replay (Log.atLevel .debug host'.lines) d = dispatcher.selected d) ∧
      ∃ tried : Direction → List Kernel, ∀ before d name after,
        Log.atLevel .debug host'.lines = before ++ .selected d name :: after →
        Account (.ofList [.sse41]) (Host.refusing [3]).refuses
          (3 + (Dispatcher.triedBefore Direction.all tried d).length)
          ((⟨[Dispatcher.exactSample, Dispatcher.exactSample]⟩ : Registry).candidates d
            (.ofList [.sse41])) (tried d) (Log.waiting before) name := by
  have hharmless : ∀ k ∈ [Dispatcher.exactSample, Dispatcher.exactSample],
      Capabilities.Permits (.ofList [.sse41]) k → ¬ k.Harmful := by
    intro k hk _
    obtain rfl : k = Dispatcher.exactSample := by simpa using hk
    exact Dispatcher.exactSample_not_harmful
  obtain ⟨dispatcher, host', hbuild⟩ :=
    Dispatcher.withRegistry_of_harmless hharmless (Host.refusing [3])
  obtain ⟨log, hlines, hreplay, ⟨tried, haccount⟩, -⟩ :=
    log_of_build (c := .withRegistry (.ofList [.sse41])
      ⟨[Dispatcher.exactSample, Dispatcher.exactSample]⟩) hbuild
  obtain rfl : host'.lines = log := hlines
  exact ⟨dispatcher, host', hbuild, hreplay, tried, haccount⟩

end Construction

end Lanewise

/-
Lanewise/Proofs/Session.lean

How a host changes while computations run on it.

A later host refuses what the earlier one refuses, has counted no fewer requests, and
its journal continues the earlier one.  `Grows P` says this, and that all kernels called
in between are in `P`.  It is reflexive and transitive, and every primitive of a session
keeps it; a conversion keeps it for the kernels that it may call
(`moves_convertInto`).
-/
import Lanewise.Session
import Lanewise.Proofs.Conversion

namespace Lanewise

variable {α τ : Type} {P : Kernel → Prop}

/-- A later host, if no kernel outside `P` has been called meanwhile. -/
structure Host.Grows (P : Kernel → Prop) (host host' : Host) : Prop where
  refuses : host'.refuses = host.refuses
  requested : host.requested ≤ host'.requested
  journal : ∃ later : List Event, host'.journal.toList = host.journal.toList ++ later ∧
    ∀ k, .called k ∈ later → P k

namespace Host.Grows

instance (P : Kernel → Prop) : IsPreorder Host (Host.Grows P) where
  refl host := ⟨rfl, le_rfl, [], (List.append_nil _).symm, fun _ hk => absurd hk List.not_mem_nil⟩
  trans := by
    rintro host host' host'' ⟨hrefuses, hrequested, later, hlater, hP⟩
      ⟨hrefuses', hrequested', later', hlater', hP'⟩
    refine ⟨hrefuses'.trans hrefuses, hrequested.trans hrequested', later ++ later', ?_, ?_⟩
    · rw [hlater', hlater, List.append_assoc]
    · intro k hk
      exact (List.mem_append.mp hk).elim (hP k) (hP' k)

/-- Calls of kernels in `P` come after those there were. -/
theorem calls {host host' : Host} (h : host.Grows P host') :
    ∃ later, host'.calls = host.calls ++ later ∧ ∀ k ∈ later, P k := by
  obtain ⟨later, hlater, hP⟩ := h.journal
  refine ⟨_, by rw [Host.calls, hlater, List.filterMap_append, Host.calls], fun k hk => ?_⟩
  obtain ⟨event, hevent, hcalled⟩ := List.mem_filterMap.mp hk
  rcases event with k' | line | text
  · cases hcalled
    exact hP k hevent
  · cases hcalled
  · cases hcalled

end Host.Grows

namespace Session

theorem moves_record {event : Event} (h : ∀ k, event = .called k → P k) :
    Moves (Host.Grows P) (record event) := by
  intro host
  refine ⟨rfl, le_rfl, [event], Array.toList_push, fun k hk => ?_⟩
  exact h k (List.mem_singleton.mp hk).symm

theorem moves_log (line : Log.Line) : Moves (Host.Grows P) (log line) :=
  moves_record fun _ h => nomatch h

theorem moves_check (result : Except Error α) : Moves (Host.Grows P) (check result) := by
  rcases result with e | a
  · exact Moves.throw (Stop.error e)
  · exact Moves.pure a

theorem moves_attempt {act : Session α} (h : Moves (Host.Grows P) act) :
    Moves (Host.Grows P) (attempt act) := by
  intro host
  have hact := h host
  rw [attempt]
  rcases e : act host with ⟨a, host'⟩ | ⟨e' | f, host'⟩
  · rwa [e] at hact
  · rwa [e] at hact
  · rwa [e] at hact

/-! ### Memory -/

theorem allocate_of_null {allocator : Allocator} {size alignment : Nat} {host after : Host}
    (h : allocator size alignment host = (true, after)) :
    allocate allocator size alignment host
      = .error (.error (.allocation size alignment "allocator returned null")) after := by
  rw [allocate, h]

theorem allocate_of_granted {allocator : Allocator} {size alignment : Nat} {host after : Host}
    (h : allocator size alignment host = (false, after)) :
    allocate allocator size alignment host = .ok () after := by
  rw [allocate, h]

theorem grows_counted (host : Host) (alignment : Nat) :
    host.Grows P (host.counted alignment) := by
  rw [Host.counted]
  split_ifs
  · exact ⟨rfl, Nat.le_succ _, [], (List.append_nil _).symm,
      fun _ hk => absurd hk List.not_mem_nil⟩
  · exact refl_of (Host.Grows P) host

theorem moves_allocate (size alignment : Nat) :
    Moves (Host.Grows P) (allocate Host.allocator size alignment) := by
  intro host
  cases hdenies : host.denies size alignment with
  | true =>
    rw [allocate_of_null (Prod.ext hdenies rfl)]
    exact grows_counted host alignment
  | false =>
    rw [allocate_of_granted (Prod.ext hdenies rfl)]
    exact grows_counted host alignment

theorem moves_convertInto {act : Converting τ α} (h : Moves (CallsOnly P) act) (dst : Array τ) :
    Moves (Host.Grows P) (convertInto dst act) := by
  intro host
  obtain ⟨calls, hcalls, hP⟩ := h { dst }
  have hnote : ∀ w : Workspace τ, w.calls.toList = calls →
      host.Grows P { host with journal := host.journal ++ w.calls.map Event.called } := by
    rintro w rfl
    refine ⟨rfl, le_rfl, w.calls.toList.map Event.called, ?_, fun k hk => ?_⟩
    · rw [Array.toList_append, Array.toList_map]
    · obtain ⟨k', hk', hcalled⟩ := List.mem_map.mp hk
      cases hcalled
      exact hP k hk'
  rw [convertInto]
  rcases e : act { dst } with ⟨a, w⟩ | ⟨s, w⟩
  · rw [e] at hcalls
    exact hnote w hcalls
  · rw [e] at hcalls
    exact hnote w hcalls

/-! ### Errors as values -/

section Attempt

variable {act : Session α} {host host' : Host}

theorem attempt_of_ok {a : α} (h : act host = .ok a host') :
    attempt act host = .ok (.ok a) host' := by
  rw [attempt, h]

theorem attempt_of_error {e : Error} (h : act host = .error (.error e) host') :
    attempt act host = .ok (.error e) host' := by
  rw [attempt, h]

theorem attempt_of_fault {f : Fault} (h : act host = .error (.fault f) host') :
    attempt act host = .error (.fault f) host' := by
  rw [attempt, h]

theorem attempt_eq_ok {a : α} (h : attempt act host = .ok (.ok a) host') :
    act host = .ok a host' := by
  rcases e : act host with ⟨b, host₁⟩ | ⟨e' | f, host₁⟩
  · rw [attempt_of_ok e] at h
    cases h
    rfl
  · rw [attempt_of_error e] at h
    cases h
  · rw [attempt_of_fault e] at h
    cases h

end Attempt

end Session

end Lanewise

/-
Lanewise/Proofs/Calls.lean

No kernel is called without the features that it requires.

To call a kernel on a processor that lacks one of them is not an error but undefined,
so this is proved of everything that calls kernels: of the making of a dispatcher, also
if it fails, and of every request to the dispatcher that comes of it
(`permitted_of_build`).  Nothing is assumed of the kernels.  A request calls what is in
the table (`Request.calls_mem`), and what is in the table was supported when it was chosen.
-/
import Lanewise.Proofs.Chunks

namespace Lanewise

namespace Dispatcher

/-- What a dispatcher can be asked for. -/
inductive Request where
  | convert (d : Direction) (src : Array d.Source) (dst : Array d.Target)
  | typed (d : Direction) (src : Array d.Source) (dst : Array d.Target)
  | parConvert (schedule : Nat → List Nat) (d : Direction) (src : Array d.Source)
    (dst : Array d.Target)

/-- The kernels that are called for a request, whether or not it is granted. -/
def Request.calls (dispatcher : Dispatcher) : Request → List Kernel
  | convert d src dst => (finalState (dispatcher.convert d src { dst })).calls.toList
  | typed d src dst => (finalState (dispatcher.typed d src { dst })).calls.toList
  | parConvert schedule d src dst =>
    (finalState (dispatcher.parConvertBy schedule d src { dst })).calls.toList

section

variable {dispatcher : Dispatcher} {P : Kernel → Prop}

theorem moves_parConvertBy (h : ∀ d k, dispatcher.kernel d = some k → P k)
    (schedule : Nat → List Nat) (d : Direction) (src : Array d.Source) :
    Moves (CallsOnly P) (dispatcher.parConvertBy schedule d src) := by
  refine Moves.bind Moves.get fun w => Moves.bind (moves_check _) fun _ => ?_
  refine Moves.ite (moves_convert h) (Moves.forM fun i _ => ?_)
  exact moves_within (moves_convert h) _ _

/-- A request calls kernels of the table. -/
theorem Request.calls_mem (h : ∀ d k, dispatcher.kernel d = some k → P k) (request : Request)
    {k : Kernel} (hk : k ∈ request.calls dispatcher) : P k := by
  have hempty : ∀ {τ : Type} {dst : Array τ} {w : Workspace τ}, CallsOnly P { dst } w →
      ∀ k ∈ w.calls.toList, P k := by
    rintro τ dst w ⟨later, hlater, hP⟩ k hk
    rw [hlater] at hk
    exact hP k hk
  rcases request with ⟨d, src, dst⟩ | ⟨d, src, dst⟩ | ⟨schedule, d, src, dst⟩
  · exact hempty (moves_convert h { dst }) k hk
  · rw [calls, typed_eq_convert] at hk
    exact hempty (moves_convert h { dst }) k hk
  · exact hempty (moves_parConvertBy h schedule d src { dst }) k hk

end

end Dispatcher

namespace Construction

open Dispatcher

/-- **No kernel runs without its features**, for any kernels, processor and host.  While a
dispatcher is made, only supported kernels are called.  What serves a direction of a made
dispatcher is a kernel of the registry and of that direction, supported, and validated
meanwhile; and only supported kernels are called for requests, however many there are. -/
theorem permitted_of_build (c : Construction) (host : Host) :
    (∃ later, (finalState (c.build host)).calls = host.calls ++ later ∧
      ∀ k ∈ later, ∀ f ∈ k.requires, c.capabilities.has f = true) ∧
    ∀ dispatcher host', c.build host = .ok dispatcher host' →
      dispatcher.capabilities = c.capabilities ∧
      (∀ d k, dispatcher.kernel d = some k →
        k ∈ c.registry.kernels ∧ k.direction = d ∧
        dispatcher.capabilities.supports k.requires = true ∧
        Validated dispatcher.capabilities k host host') ∧
      ∀ requests : List Request, ∀ k ∈ requests.flatMap (Request.calls dispatcher),
        ∀ f ∈ k.requires, dispatcher.capabilities.has f = true := by
  constructor
  · obtain ⟨later, hlater, hpermits⟩ := (moves_build c host).calls
    refine ⟨later, hlater, ?_⟩
    intro k hk
    exact Capabilities.permits_iff.mp (hpermits k hk)
  · intro dispatcher host' hbuild
    obtain ⟨hcaps, hkernel⟩ := sound_build hbuild
    have hpermits : ∀ d k, dispatcher.kernel d = some k → c.capabilities.Permits k := by
      intro d k hk
      obtain ⟨hcandidate, -⟩ := hkernel d k hk
      obtain ⟨-, hpermits, -⟩ := Registry.mem_candidates.mp hcandidate
      exact hpermits
    rw [hcaps]
    refine ⟨rfl, ?_, ?_⟩
    · intro d k hk
      obtain ⟨hcandidate, hvalidated⟩ := hkernel d k hk
      obtain ⟨hmem, -, hd⟩ := Registry.mem_candidates.mp hcandidate
      exact ⟨hmem, hd, hpermits d k hk, hvalidated⟩
    · intro requests k hk
      obtain ⟨request, -, hcall⟩ := List.mem_flatMap.mp hk
      exact Capabilities.permits_iff.mp (request.calls_mem hpermits hcall)

/-- Three requests to a dispatcher made from the exact sample call kernels for SSE4.1 only. -/
theorem permitted_exactSample :
    ∃ dispatcher host',
      (withRegistry (.ofList [.sse41]) ⟨[exactSample]⟩).build (Host.refusing [])
        = .ok dispatcher host' ∧
      (∀ d k, dispatcher.kernel d = some k → k = exactSample ∧ d = Samples.saturating) ∧
      ∀ k ∈ [Request.convert Samples.saturating nineFloats (Array.replicate 9 0),
          .typed Samples.saturating nineFloats #[],
          .parConvert lastFirst Samples.saturating nineFloats (Array.replicate 9 0)].flatMap
            (Request.calls dispatcher),
        ∀ f ∈ k.requires, (Capabilities.ofList [.sse41]).has f = true := by
  obtain ⟨dispatcher, host', hbuild⟩ := withRegistry_exactSample
  obtain ⟨hcaps, hkernel, hrequests⟩ :=
    (permitted_of_build (.withRegistry (.ofList [.sse41]) ⟨[exactSample]⟩) (Host.refusing [])).2
      dispatcher host' hbuild
  refine ⟨dispatcher, host', hbuild, ?_, ?_⟩
  · intro d k hk
    obtain ⟨hmem, hd, -, -⟩ := hkernel d k hk
    obtain rfl := List.mem_singleton.mp hmem
    exact ⟨rfl, hd.symm⟩
  · rw [hcaps] at hrequests
    exact hrequests _

end Construction

end Lanewise

/-
Lanewise/Proofs/Dispatch.lean

Every dispatcher converts as the scalar conversion does.

    dispatcher.convert d src w = .ok () ⟨src.map d.scalar, _⟩       equal lengths
    dispatcher.convert d src w = .error (.lengthMismatch _ _) w      different lengths

This holds of every dispatcher that can be made from kernels that honour the prefix,
whatever the processor offers and whatever memory the host refused meanwhile
(`convert_eq_scalar`): a kernel in the table is of the direction that it serves, so the
only refusal left is that of the lengths.
-/
import Lanewise.Proofs.Faults

namespace Lanewise

namespace Dispatcher

section

variable {dispatcher : Dispatcher} {d : Direction} {src : Array d.Source}
  {w : Workspace d.Target}

/-- The kernels of the table serve their own directions and honour the prefix. -/
def Faithful (dispatcher : Dispatcher) : Prop :=
  ∀ d k, dispatcher.kernel d = some k → k.direction = d ∧ k.HonoursPrefix

theorem typed_eq_convert (dispatcher : Dispatcher) (d : Direction) (src : Array d.Source) :
    dispatcher.typed d src = dispatcher.convert d src := by
  cases d <;> rfl

theorem convert_run (h : dispatcher.Faithful) (hsize : src.size = w.dst.size) :
    ∃ calls, dispatcher.convert d src w = .ok () ⟨src.map d.scalar, calls⟩ := by
  obtain ⟨count, calls, hrun⟩ := convertWith_run (h d) hsize
  exact ⟨calls, run_bind_of_ok hrun⟩

theorem convert_mismatch (h : src.size ≠ w.dst.size) :
    dispatcher.convert d src w = .error (.error (.lengthMismatch src.size w.dst.size)) w :=
  run_bind_of_error (convertWith_mismatch h)

/-- A conversion calls the kernel of its direction and no other. -/
theorem moves_convert {P : Kernel → Prop} (h : ∀ d k, dispatcher.kernel d = some k → P k) :
    Moves (CallsOnly P) (dispatcher.convert d src) :=
  Moves.bind (moves_convertWith (h d) src) fun _ => Moves.pure _

end

/-- **A dispatcher converts as the scalar conversion does**, by either method, and refuses
different lengths without touching the destination. -/
theorem convert_eq_scalar {c : Construction} {host host' : Host} {dispatcher : Dispatcher}
    (hbuild : c.build host = .ok dispatcher host')
    (hsupplied : ∀ k ∈ c.supplied, k.HonoursPrefix)
    (d : Direction) (src : Array d.Source) (w : Workspace d.Target) :
    (src.size = w.dst.size →
      (∃ calls, dispatcher.convert d src w = .ok () ⟨src.map d.scalar, calls⟩) ∧
      (∃ calls, dispatcher.typed d src w = .ok () ⟨src.map d.scalar, calls⟩)) ∧
    (src.size ≠ w.dst.size →
      dispatcher.convert d src w
        = .error (.error (.lengthMismatch src.size w.dst.size)) w ∧
      dispatcher.typed d src w
        = .error (.error (.lengthMismatch src.size w.dst.size)) w) := by
  have hfaithful : dispatcher.Faithful := by
    intro d k hk
    exact Construction.honoursPrefix_of_build hbuild hsupplied hk
  rw [typed_eq_convert]
  constructor
  · intro hsize
    exact ⟨convert_run hfaithful hsize, convert_run hfaithful hsize⟩
  · intro hsize
    exact ⟨convert_mismatch hsize, convert_mismatch hsize⟩

/-- A sample that is exact with blocks of eight. -/
def exactSample : Kernel :=
  Samples.sample "exact" Samples.saturating .sse41 [.sse41] 4 2 true Samples.saturating.scalar
    Samples.eights Samples.eights

theorem exactSample_honoursPrefix : exactSample.HonoursPrefix :=
  Samples.sample_honoursPrefix (Loop.reach_le 8) fun _ => le_rfl

theorem exactSample_not_harmful : ¬ exactSample.Harmful := by
  rw [Kernel.Harmful, exactSample, trialCount_sample]
  decide

/-- The exact sample can be chosen from, on a processor that supports it. -/
theorem withRegistry_exactSample : ∃ dispatcher host',
    (Construction.withRegistry (.ofList [.sse41]) ⟨[exactSample]⟩).build (Host.refusing [])
      = .ok dispatcher host' :=
  withRegistry_of_harmless (List.forall_mem_singleton.mpr fun _ => exactSample_not_harmful) _

/-- Nine floats: one more than a block, among them a tie, a NaN and an infinity. -/
def nineFloats : Array UInt32 :=
  #[0x3F800000, 0xBF800000, 0x437F0000, 0x43800000, 0x7FC00000, 0x3F000000, 0x3FC00000,
    0x40200000, 0x7F800000]

/-- A dispatcher made from the exact sample converts nine floats to bytes, and refuses to
convert one byte into no float. -/
theorem convert_exactSample :
    ∃ dispatcher host',
      (Construction.withRegistry (.ofList [.sse41]) ⟨[exactSample]⟩).build (Host.refusing [])
        = .ok dispatcher host' ∧
      (∃ calls, dispatcher.convert Samples.saturating nineFloats ⟨Array.replicate 9 7, #[]⟩
        = .ok () ⟨#[1, 0, 255, 255, 0, 0, 2, 2, 255], calls⟩) ∧
      dispatcher.typed .u8ToF32 #[1] ⟨#[], #[]⟩
        = .error (.error (.lengthMismatch 1 0)) ⟨#[], #[]⟩ := by
  have hsupplied : ∀ k ∈ [exactSample], k.HonoursPrefix :=
    List.forall_mem_singleton.mpr exactSample_honoursPrefix
  have hbytes : nineFloats.map (Byte.ofF32 .saturating) = #[1, 0, 255, 255, 0, 0, 2, 2, 255] := by
    decide +kernel
  obtain ⟨dispatcher, host', hbuild⟩ := withRegistry_exactSample
  obtain ⟨hequal, -⟩ := convert_eq_scalar hbuild hsupplied Samples.saturating nineFloats
    ⟨Array.replicate 9 7, #[]⟩
  obtain ⟨-, hdifferent⟩ := convert_eq_scalar hbuild hsupplied .u8ToF32 #[1] ⟨#[], #[]⟩
  obtain ⟨hfloats, -⟩ := hequal rfl
  obtain ⟨-, hmismatch⟩ := hdifferent (by decide)
  refine ⟨dispatcher, host', hbuild, ?_, hmismatch⟩
  rw [← hbytes]
  exact hfloats

end Dispatcher

end Lanewise

/-
Lanewise/Proofs/Chunks.lean

Conversion in chunks does what conversion at once does.

Converting one chunk replaces the elements of its own index range by scalar results
(`convertChunk_run`).  Converting any list of chunks, in any order, therefore replaces
those elements whose chunk is in the list (`forM_convertChunk_run`); that a chunk comes
before another one leaves no trace.  The chunks of a buffer are the quotients of its
indices by the chunk size (`div_lt_chunkCount`), so a schedule that runs every chunk
replaces every element:

    dispatcher.parConvertBy schedule d src w = .ok () ⟨src.map d.scalar, _⟩

(`parConvertBy_eq_convert`).  The lengths are compared before the cutting, so different
lengths are refused as a whole.
-/
import Lanewise.Proofs.Dispatch

namespace Lanewise.Dispatcher

section

variable {dispatcher : Dispatcher} {d : Direction} {src : Array d.Source}
  {w : Workspace d.Target}

/-! ### The chunks of a buffer -/

theorem div_lt_chunkCount {j n : Nat} (h : j < n) : j / chunkSize < chunkCount n := by
  rw [chunkCount, chunkSize]
  omega

theorem mul_chunkSize_le {i n : Nat} (h : i < chunkCount n) : i * chunkSize ≤ n := by
  rw [chunkCount, chunkSize] at h
  rw [chunkSize]
  omega

/-! ### One chunk -/

/-- Converting a chunk replaces the elements of its index range and no other. -/
theorem convertChunk_run (h : dispatcher.Faithful) (hsize : src.size = w.dst.size) {i : Nat}
    (hi : i * chunkSize ≤ src.size) :
    ∃ w', dispatcher.convertChunk d src i w = .ok () w' ∧ src.size = w'.dst.size ∧
      ∀ j, w'.dst[j]? = if j / chunkSize = i then (src.map d.scalar)[j]? else w.dst[j]? := by
  set start := i * chunkSize with hstart
  have hpart : (src.extract start (start + chunkSize)).size
      = (w.dst.extract start (start + chunkSize)).size := by
    rw [Array.size_extract, Array.size_extract, hsize]
  obtain ⟨calls, hconvert⟩ := convert_run (w := ⟨w.dst.extract start (start + chunkSize), w.calls⟩)
    h hpart
  have hrun : dispatcher.convertChunk d src i w = .ok () ⟨Slice.splice w.dst start
      ((src.extract start (start + chunkSize)).map d.scalar), calls⟩ := by
    rw [convertChunk, Converting.within, hconvert]
  have hlength : ((src.extract start (start + chunkSize)).map d.scalar).size
      = min (start + chunkSize) src.size - start := by
    rw [Array.size_map, Array.size_extract]
  refine ⟨_, hrun, ?_, fun j => ?_⟩
  · rw [Slice.size_splice (by omega), hsize]
  · have hchunk : j / chunkSize = i ↔ start ≤ j ∧ j < start + chunkSize := by
      rw [hstart, chunkSize]
      omega
    rw [Slice.getElem?_splice (by omega), hlength]
    by_cases hin : start ≤ j ∧ j < start + (min (start + chunkSize) src.size - start)
    · rw [if_pos hin, if_pos (hchunk.mpr (by omega)), Array.getElem?_map, Array.getElem?_map,
        Array.getElem?_extract, if_pos (by omega), Nat.add_sub_cancel' hin.1]
    · rw [if_neg hin]
      -- the last chunk may end with the buffer
      by_cases hj : j / chunkSize = i
      · have hout : src.size ≤ j := by
          have hrange := hchunk.mp hj
          omega
        rw [if_pos hj, Array.getElem?_eq_none (hsize ▸ hout),
          Array.getElem?_eq_none (by rwa [Array.size_map])]
      · rw [if_neg hj]

/-! ### Any chunks in any order -/

/-- Converting chunks replaces the elements whose chunk is one of them. -/
theorem forM_convertChunk_run (h : dispatcher.Faithful) (hsize : src.size = w.dst.size)
    {chunks : List Nat} (hchunks : ∀ i ∈ chunks, i * chunkSize ≤ src.size) :
    ∃ w', chunks.forM (dispatcher.convertChunk d src) w = .ok () w' ∧ src.size = w'.dst.size ∧
      ∀ j, w'.dst[j]?
        = if j / chunkSize ∈ chunks then (src.map d.scalar)[j]? else w.dst[j]? := by
  induction chunks generalizing w with
  | nil => exact ⟨w, rfl, hsize, fun j => (if_neg List.not_mem_nil).symm⟩
  | cons i rest ih =>
    obtain ⟨w₁, hstep, hsize₁, hdst₁⟩ :=
      convertChunk_run h hsize (hchunks i List.mem_cons_self)
    obtain ⟨w₂, hrest, hsize₂, hdst₂⟩ :=
      ih hsize₁ fun i' hi' => hchunks i' (List.mem_cons_of_mem i hi')
    refine ⟨w₂, (run_bind_of_ok hstep).trans hrest, hsize₂, fun j => ?_⟩
    -- a chunk that comes twice would only be given the same elements again
    rw [hdst₂, hdst₁]
    by_cases hj : j / chunkSize ∈ rest
    · rw [if_pos hj, if_pos (List.mem_cons_of_mem i hj)]
    · rw [if_neg hj]
      by_cases hji : j / chunkSize = i
      · rw [if_pos hji, if_pos (List.mem_cons.mpr (.inl hji))]
      · rw [if_neg hji, if_neg (mt List.mem_cons.mp (not_or.mpr ⟨hji, hj⟩))]

/-- A schedule that runs all chunks converts the buffer. -/
theorem forM_all_chunks_run (h : dispatcher.Faithful) (hsize : src.size = w.dst.size)
    {chunks : List Nat} (hperm : chunks.Perm (List.range (chunkCount src.size))) :
    ∃ calls, chunks.forM (dispatcher.convertChunk d src) w
      = .ok () ⟨src.map d.scalar, calls⟩ := by
  obtain ⟨⟨dst, calls⟩, hrun, hsize', hdst⟩ := forM_convertChunk_run h hsize
    fun i hi => mul_chunkSize_le (List.mem_range.mp (hperm.mem_iff.mp hi))
  have hall : dst = src.map d.scalar := by
    refine Array.ext_getElem? fun j => ?_
    rcases Nat.lt_or_ge j src.size with hj | hj
    · have hmem : j / chunkSize ∈ chunks :=
        hperm.mem_iff.mpr (List.mem_range.mpr (div_lt_chunkCount hj))
      exact (hdst j).trans (if_pos hmem)
    · have hout : dst.size ≤ j := hsize' ▸ hj
      rw [Array.getElem?_eq_none hout, Array.getElem?_eq_none (by rwa [Array.size_map])]
  exact ⟨calls, hall ▸ hrun⟩

/-! ### Conversion in chunks -/

theorem parConvertBy_of_size {schedule : Nat → List Nat} (hsize : src.size = w.dst.size) :
    dispatcher.parConvertBy schedule d src w
      = (if src.size < parallelThreshold then dispatcher.convert d src
          else (schedule (chunkCount src.size)).forM (dispatcher.convertChunk d src)) w := by
  show (Converting.check (checkLengths src.size w.dst.size) >>= fun _ => _) w = _
  rw [check_lengths_of_eq hsize]
  rfl

theorem parConvertBy_run (h : dispatcher.Faithful) (hsize : src.size = w.dst.size)
    {schedule : Nat → List Nat}
    (hschedule : (schedule (chunkCount src.size)).Perm (List.range (chunkCount src.size))) :
    ∃ calls, dispatcher.parConvertBy schedule d src w = .ok () ⟨src.map d.scalar, calls⟩ := by
  rw [parConvertBy_of_size hsize]
  split_ifs
  · exact convert_run h hsize
  · exact forM_all_chunks_run h hsize hschedule

theorem parConvertBy_mismatch {schedule : Nat → List Nat} (h : src.size ≠ w.dst.size) :
    dispatcher.parConvertBy schedule d src w
      = .error (.error (.lengthMismatch src.size w.dst.size)) w := by
  show (Converting.check (checkLengths src.size w.dst.size) >>= _) w = _
  rw [check_lengths_of_ne h]
  rfl

end

/-- **Conversion in chunks agrees with conversion at once**, under every schedule that runs each
chunk once, and for every length. -/
theorem parConvertBy_eq_convert {c : Construction} {host host' : Host} {dispatcher : Dispatcher}
    (hbuild : c.build host = .ok dispatcher host')
    (hkernels : ∀ d k, dispatcher.kernel d = some k → k.HonoursPrefix)
    (d : Direction) (src : Array d.Source) (w : Workspace d.Target) {schedule : Nat → List Nat}
    (hschedule : (schedule (chunkCount src.size)).Perm (List.range (chunkCount src.size))) :
    (src.size = w.dst.size → ∃ out calls calls',
      dispatcher.convert d src w = .ok () ⟨out, calls⟩ ∧
      dispatcher.parConvertBy schedule d src w = .ok () ⟨out, calls'⟩ ∧
      out = src.map d.scalar) ∧
    (src.size ≠ w.dst.size →
      dispatcher.convert d src w
        = .error (.error (.lengthMismatch src.size w.dst.size)) w ∧
      dispatcher.parConvertBy schedule d src w
        = .error (.error (.lengthMismatch src.size w.dst.size)) w) := by
  have hfaithful : dispatcher.Faithful := by
    intro d k hk
    obtain ⟨hcandidate, -⟩ := (Construction.sound_build hbuild).kernel d k hk
    obtain ⟨-, -, hd⟩ := Registry.mem_candidates.mp hcandidate
    exact ⟨hd, hkernels d k hk⟩
  constructor
  · intro hsize
    -- both are the scalar conversion, whatever the chunks were cut at
    obtain ⟨calls, hconvert⟩ := convert_run (w := w) hfaithful hsize
    obtain ⟨calls', hchunks⟩ := parConvertBy_run (w := w) hfaithful hsize hschedule
    exact ⟨src.map d.scalar, calls, calls', hconvert, hchunks, rfl⟩
  · intro hsize
    exact ⟨convert_mismatch hsize, parConvertBy_mismatch hsize⟩

/-- The schedule from the last chunk to the first. -/
def lastFirst (n : Nat) : List Nat := (List.range n).reverse

theorem lastFirst_perm (n : Nat) : (lastFirst n).Perm (List.range n) := List.reverse_perm _

/-- Thirteen chunks from last to first, the last one of two elements. -/
theorem parConvertBy_lastFirst :
    ∃ dispatcher host',
      (Construction.withRegistry (.ofList [.sse41]) ⟨[exactSample]⟩).build (Host.refusing [])
        = .ok dispatcher host' ∧
      ∃ out calls calls',
        dispatcher.convert Samples.saturating (Array.replicate 294914 0x3FC00000)
          ⟨Array.replicate 294914 7, #[]⟩ = .ok () ⟨out, calls⟩ ∧
        dispatcher.parConvertBy lastFirst Samples.saturating (Array.replicate 294914 0x3FC00000)
          ⟨Array.replicate 294914 7, #[]⟩ = .ok () ⟨out, calls'⟩ ∧
        out = (Array.replicate 294914 0x3FC00000).map (Byte.ofF32 .saturating) := by
  have hsize : (Array.replicate 294914 (0x3FC00000 : UInt32)).size
      = (Array.replicate 294914 (7 : UInt8)).size := by
    rw [Array.size_replicate, Array.size_replicate]
  obtain ⟨dispatcher, host', hbuild⟩ := withRegistry_exactSample
  have hsupplied : ∀ k ∈ [exactSample], k.HonoursPrefix :=
    List.forall_mem_singleton.mpr exactSample_honoursPrefix
  have hkernels : ∀ d k, dispatcher.kernel d = some k → k.HonoursPrefix := by
    intro d k hk
    obtain ⟨-, hhonours⟩ := Construction.honoursPrefix_of_build hbuild hsupplied hk
    exact hhonours
  obtain ⟨hagree, -⟩ := parConvertBy_eq_convert hbuild hkernels Samples.saturating
    (Array.replicate 294914 0x3FC00000) ⟨Array.replicate 294914 7, #[]⟩ (lastFirst_perm _)
  exact ⟨dispatcher, host', hbuild, hagree hsize⟩

end Lanewise.Dispatcher

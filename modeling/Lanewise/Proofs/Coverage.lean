/-
Lanewise/Proofs/Coverage.lean

Which elements kernels convert when a buffer is cut into chunks.

`parConvertBy` forgets what the kernels report of the chunks.  `parConvertSpans` is the same
conversion with the reports kept, as spans of the buffer (`parConvertBy_eq_spans`).  An exact
kernel converts of a chunk what its blocks fill (`convertChunkSpan_run`), and so of all chunks,
taken in any order, their spans (`mapM_convertChunkSpan_run`).

If a block divides the chunk size, cutting loses nothing: chunks before the last one are filled,
and the spans laid end to end are the prefix that blocks fill in the whole buffer,

    spans of 0, 1, 2, ...  =  [0, n - n % block)

(`flatMap_chunkSpan`).  The blocks of all compiled kernels do (`Registry.block_dvd_chunkSize`).
-/
import Lanewise.Proofs.Chunks
import Lanewise.Proofs.Invocation

namespace Lanewise

namespace Dispatcher

section

variable {dispatcher : Dispatcher} {d : Direction} {src : Array d.Source}
  {w : Workspace d.Target} {k : Kernel}

/-! ### Conversions that keep the reports -/

/-- Converts one chunk, and tells which elements of the buffer the kernel reported. -/
def convertChunkSpan (dispatcher : Dispatcher) (d : Direction) (src : Array d.Source) (i : Nat) :
    Converting d.Target Span := do
  let start := i * chunkSize
  let stop := start + chunkSize
  let count ← Converting.within start stop
    (convertWith (dispatcher.kernel d) d (src.extract start stop))
  return ⟨start, count⟩

/-- Converts a buffer in chunks, and tells what the kernel reported of each of them. -/
def parConvertSpans (schedule : Nat → List Nat) (dispatcher : Dispatcher) (d : Direction)
    (src : Array d.Source) : Converting d.Target (List Span) := do
  Converting.check (checkLengths src.size (← get).dst.size)
  if src.size < parallelThreshold then
    return [⟨0, ← convertWith (dispatcher.kernel d) d src⟩]
  else
    (schedule (chunkCount src.size)).mapM (dispatcher.convertChunkSpan d src)

/-- What becomes of the part does not depend on the result. -/
theorem within_forget {τ α : Type} (start stop : Nat) (act : Converting τ α) :
    Converting.within start stop (act >>= fun _ => pure ())
      = Converting.within start stop act >>= fun _ => pure () := by
  funext w
  rcases hrun : act { w with dst := w.dst.extract start stop } with ⟨a, part⟩ | ⟨s, part⟩
  · have hwithin : Converting.within start stop act w
        = .ok a { part with dst := Slice.splice w.dst start part.dst } := by
      rw [Converting.within, hrun]
    rw [run_bind_of_ok hwithin, Converting.within, run_bind_of_ok hrun]
    rfl
  · have hwithin : Converting.within start stop act w
        = .error s { part with dst := Slice.splice w.dst start part.dst } := by
      rw [Converting.within, hrun]
    rw [run_bind_of_error hwithin, Converting.within, run_bind_of_error hrun]

theorem convertChunk_eq_span (i : Nat) :
    dispatcher.convertChunk d src i = dispatcher.convertChunkSpan d src i >>= fun _ => pure () := by
  rw [convertChunk, convert, within_forget, convertChunkSpan, bind_assoc]
  simp only [pure_bind]

theorem forM_convertChunk_eq_spans (chunks : List Nat) :
    chunks.forM (dispatcher.convertChunk d src)
      = chunks.mapM (dispatcher.convertChunkSpan d src) >>= fun _ => pure () := by
  induction chunks with
  | nil => rw [List.mapM_nil, pure_bind]; rfl
  | cons i rest ih =>
    have hcons : (i :: rest).forM (dispatcher.convertChunk d src)
        = dispatcher.convertChunk d src i >>= fun _ => rest.forM (dispatcher.convertChunk d src) :=
      rfl
    rw [hcons, ih, convertChunk_eq_span, List.mapM_cons]
    simp only [bind_assoc, pure_bind]

/-- Conversion in chunks is the conversion that keeps the reports, and forgets them. -/
theorem parConvertBy_eq_spans (schedule : Nat → List Nat) :
    dispatcher.parConvertBy schedule d src
      = dispatcher.parConvertSpans schedule d src >>= fun _ => pure () := by
  rw [parConvertBy, parConvertSpans]
  simp only [bind_assoc]
  refine bind_congr fun w => bind_congr fun _ => ?_
  split_ifs
  · simp only [convert, bind_assoc, pure_bind]
  · exact forM_convertChunk_eq_spans _

/-! ### What a kernel converts of the chunks -/

/-- Of chunk `i` of a buffer of `n` elements, the part that blocks fill. -/
def chunkSpan (block n i : Nat) : Span :=
  ⟨i * chunkSize, Loop.reach block (min chunkSize (n - i * chunkSize))⟩

/-- The elements of a chunk that starts at `start`. -/
def chunkFrom (src : Array d.Source) (start : Nat) : Array d.Source :=
  src.extract start (start + chunkSize)

theorem size_chunkFrom (start : Nat) :
    (chunkFrom src start).size = min chunkSize (src.size - start) := by
  rw [chunkFrom, Array.size_extract]
  omega

/-- One chunk: the kernel is called once, and reports what its blocks fill of the chunk. -/
theorem convertChunkSpan_run (hkernel : dispatcher.kernel d = some k) (hk : k.Exact)
    (hd : k.direction = d) (hsize : src.size = w.dst.size) {i : Nat}
    (hi : i * chunkSize ≤ src.size) :
    ∃ w', dispatcher.convertChunkSpan d src i w = .ok (chunkSpan k.block src.size i) w' ∧
      src.size = w'.dst.size ∧ w'.calls = w.calls.push k := by
  set start := i * chunkSize with hstart
  have hpart : (chunkFrom src start).size
      = (w.dst.extract start (start + chunkSize)).size := by
    rw [chunkFrom, Array.size_extract, Array.size_extract, hsize]
  have hconvert := hk.convertWith_run (w := ⟨w.dst.extract start (start + chunkSize), w.calls⟩)
    hd hpart
  rw [size_chunkFrom] at hconvert
  have hwithin : Converting.within start (start + chunkSize)
        (convertWith (dispatcher.kernel d) d (chunkFrom src start)) w
      = .ok (Loop.reach k.block (min chunkSize (src.size - start)))
        ⟨Slice.splice w.dst start ((chunkFrom src start).map d.scalar), w.calls.push k⟩ := by
    rw [hkernel, Converting.within, hconvert]
  refine ⟨_, run_bind_of_ok hwithin, ?_, rfl⟩
  rw [Slice.size_splice (by omega), hsize]

/-- Any chunks in any order: one call and one span for each of them. -/
theorem mapM_convertChunkSpan_run (hkernel : dispatcher.kernel d = some k) (hk : k.Exact)
    (hd : k.direction = d) (hsize : src.size = w.dst.size) {chunks : List Nat}
    (hchunks : ∀ i ∈ chunks, i * chunkSize ≤ src.size) :
    ∃ w', chunks.mapM (dispatcher.convertChunkSpan d src) w
        = .ok (chunks.map (chunkSpan k.block src.size)) w' ∧
      w'.calls.toList = w.calls.toList ++ List.replicate chunks.length k := by
  induction chunks generalizing w with
  | nil => exact ⟨w, rfl, (List.append_nil _).symm⟩
  | cons i rest ih =>
    obtain ⟨w₁, hstep, hsize₁, hcalls₁⟩ :=
      convertChunkSpan_run hkernel hk hd hsize (hchunks i List.mem_cons_self)
    obtain ⟨w₂, hrest, hcalls₂⟩ := ih hsize₁ fun i' hi' => hchunks i' (List.mem_cons_of_mem i hi')
    refine ⟨w₂, ?_, ?_⟩
    · rw [List.mapM_cons, run_bind_of_ok hstep, run_bind_of_ok hrest]
      rfl
    · rw [hcalls₂, hcalls₁, Array.toList_push, List.append_assoc, List.length_cons,
        List.replicate_succ]
      rfl

theorem parConvertSpans_run (hkernel : dispatcher.kernel d = some k) (hk : k.Exact)
    (hd : k.direction = d) (hsize : src.size = w.dst.size) (hlong : parallelThreshold ≤ src.size)
    {schedule : Nat → List Nat}
    (hschedule : (schedule (chunkCount src.size)).Perm (List.range (chunkCount src.size))) :
    ∃ w', dispatcher.parConvertSpans schedule d src w
        = .ok ((schedule (chunkCount src.size)).map (chunkSpan k.block src.size)) w' ∧
      w'.calls.toList = w.calls.toList ++ List.replicate (chunkCount src.size) k := by
  obtain ⟨w', hrun, hcalls⟩ := mapM_convertChunkSpan_run hkernel hk hd hsize
    fun i hi => mul_chunkSize_le (List.mem_range.mp (hschedule.mem_iff.mp hi))
  rw [hschedule.length_eq, List.length_range] at hcalls
  refine ⟨w', ?_, hcalls⟩
  show (Converting.check (checkLengths src.size w.dst.size) >>= fun _ => _) w = _
  rw [check_lengths_of_eq hsize, if_neg (Nat.not_lt.mpr hlong)]
  exact hrun

end

/-! ### Spans laid end to end -/

section

variable {block n i : Nat}

/-- A chunk with all its elements is filled by blocks that divide it. -/
theorem chunkSpan_of_full (hblock : block ∣ chunkSize) (hfull : i * chunkSize + chunkSize ≤ n) :
    chunkSpan block n i = ⟨i * chunkSize, chunkSize⟩ := by
  rw [chunkSpan, Nat.min_eq_left (by omega), Loop.reach_of_dvd hblock]

/-- Before the last chunk, chunks have all their elements. -/
theorem full_of_succ_lt (h : i + 1 < chunkCount n) : i * chunkSize + chunkSize ≤ n := by
  rw [← Nat.succ_mul]
  exact mul_chunkSize_le h

/-- **Chunks lose no block.**  If blocks divide the chunk size, the spans of the chunks, in order,
are the prefix that blocks fill in the whole buffer. -/
theorem flatMap_chunkSpan (hblock : block ∣ chunkSize) (n : Nat) :
    (List.range (chunkCount n)).flatMap (fun i => (chunkSpan block n i).indices)
      = List.range (Loop.reach block n) := by
  rcases hcount : chunkCount n with _ | q
  · have hn : n = 0 := by
      rw [chunkCount, chunkSize] at hcount
      omega
    rw [hn]
    rfl
  · -- the last chunk holds what follows the full ones
    have hlast : q * chunkSize ≤ n ∧ n - q * chunkSize ≤ chunkSize := by
      rw [chunkCount, chunkSize] at hcount
      rw [chunkSize]
      omega
    obtain ⟨r, rfl⟩ := Nat.exists_eq_add_of_le hlast.1
    rw [Nat.add_sub_cancel_left] at hlast
    have hfull : ∀ i ∈ List.range q, (chunkSpan block (q * chunkSize + r) i).indices
        = List.range' (0 + i * chunkSize) chunkSize := by
      intro i hi
      have hsucc : i + 1 < chunkCount (q * chunkSize + r) := by
        rw [hcount]
        exact Nat.succ_lt_succ (List.mem_range.mp hi)
      rw [chunkSpan_of_full hblock (full_of_succ_lt hsucc), Nat.zero_add]
      rfl
    rw [List.range_succ, List.flatMap_append, List.flatMap_congr hfull, Loop.flatMap_range'_mul,
      List.flatMap_singleton, chunkSpan, Nat.add_sub_cancel_left, Nat.min_eq_right hlast.2,
      Loop.reach_add_of_dvd (hblock.mul_left q), List.range_eq_range', ← List.range'_append_1,
      Nat.zero_add]
    rfl

end

end Dispatcher

/-! ### The compiled kernels -/

namespace Registry

/-- Blocks have up to 16 lanes, a power of two, and an unroll factor that divides 24. -/
theorem block_dvd_chunkSize :
    ∀ k ∈ compiled.kernels, k.lanes * k.unroll ∣ Dispatcher.chunkSize := by
  decide +kernel

end Registry

namespace Dispatcher

variable {k : Kernel} {d : Direction}

/-- On the chunk where the span starts, the kernel converts the elements of the span and keeps the
others, whatever the destination holds. -/
def ConvertsSpan (k : Kernel) (d : Direction) (src : Array d.Source) (s : Span) : Prop :=
  ∀ part : Workspace d.Target, (chunkFrom src s.start).size = part.dst.size →
    ∃ out, k.invoke d (chunkFrom src s.start) part = .ok s.length ⟨out, part.calls.push k⟩ ∧
      Kernel.ConvertedUpTo s.length d (chunkFrom src s.start) part.dst out

theorem convertsSpan_chunkSpan (hk : k.Exact) (hd : k.direction = d) (src : Array d.Source)
    (i : Nat) : ConvertsSpan k d src (chunkSpan k.block src.size i) := by
  intro part hpart
  have hrun := (hk.invoke_run d (chunkFrom src (i * chunkSize)) part).2.2 hpart hd
  rwa [size_chunkFrom] at hrun

/-- **Chunking does not change which elements a kernel converts.**  In a long buffer, a compiled
kernel is called once for each chunk and converts every chunk but the last one wholly.  Together
the elements it converts are those that it converts of the buffer at once: the prefix that its
blocks fill, each element once, under every schedule that runs each chunk once. -/
theorem parConvert_covers (hk : k ∈ Registry.compiled.kernels) (hd : k.direction = d)
    {dispatcher : Dispatcher} (hkernel : dispatcher.kernel d = some k) (src : Array d.Source)
    (w : Workspace d.Target) (hsize : src.size = w.dst.size)
    (hlong : parallelThreshold ≤ src.size) {schedule : Nat → List Nat}
    (hschedule : (schedule (chunkCount src.size)).Perm (List.range (chunkCount src.size))) :
    ∃ spans w',
      dispatcher.parConvertSpans schedule d src w = .ok spans w' ∧
      dispatcher.parConvertBy schedule d src w = .ok () w' ∧
      w'.calls.toList = w.calls.toList ++ List.replicate (chunkCount src.size) k ∧
      spans.map Span.start = (schedule (chunkCount src.size)).map (· * chunkSize) ∧
      (∀ s ∈ spans, ConvertsSpan k d src s) ∧
      (∀ s ∈ spans, s.start ≠ (chunkCount src.size - 1) * chunkSize →
        s.start + chunkSize ≤ src.size ∧ s.length = chunkSize) ∧
      (spans.flatMap Span.indices).Perm
        (List.range (src.size - src.size % (k.lanes * k.unroll))) ∧
      (spans.map Span.length).sum = src.size - src.size % (k.lanes * k.unroll) ∧
      convertWith (dispatcher.kernel d) d src w
        = .ok (src.size - src.size % (k.lanes * k.unroll))
          ⟨src.map d.scalar, w.calls.push k⟩ := by
  have hexact := Registry.compiled_exact hk
  have hblock : k.block ∣ chunkSize :=
    Registry.block_eq_of_mem k hk ▸ Registry.block_dvd_chunkSize k hk
  obtain ⟨w', hspans, hcalls⟩ := parConvertSpans_run hkernel hexact hd hsize hlong hschedule
  have hpar : dispatcher.parConvertBy schedule d src w = .ok () w' := by
    rw [parConvertBy_eq_spans, run_bind_of_ok hspans]
    rfl
  -- the spans of a schedule are those of the chunks in order, rearranged
  have hperm : (((schedule (chunkCount src.size)).map (chunkSpan k.block src.size)).flatMap
      Span.indices).Perm (List.range (Loop.reach k.block src.size)) := by
    rw [← flatMap_chunkSpan hblock, List.flatMap_map]
    exact hschedule.flatMap_right _
  rw [← Registry.block_eq_of_mem k hk]
  refine ⟨_, w', hspans, hpar, hcalls, ?_, ?_, ?_, hperm, ?_, ?_⟩
  · rw [List.map_map]
    rfl
  · intro s hs
    obtain ⟨i, -, rfl⟩ := List.mem_map.mp hs
    exact convertsSpan_chunkSpan hexact hd src i
  · intro s hs hstart
    obtain ⟨i, hi, rfl⟩ := List.mem_map.mp hs
    have hlt := List.mem_range.mp (hschedule.mem_iff.mp hi)
    have hne : i ≠ chunkCount src.size - 1 := fun h => hstart (congrArg (· * chunkSize) h)
    have hfull : i * chunkSize + chunkSize ≤ src.size := full_of_succ_lt (by omega)
    exact ⟨hfull, congrArg Span.length (chunkSpan_of_full hblock hfull)⟩
  · have hlengths : Span.length = List.length ∘ Span.indices :=
      funext fun s => List.length_range'.symm
    rw [hlengths, ← List.map_map, ← List.length_flatten, ← List.flatMap_def, hperm.length_eq,
      List.length_range]
    rfl
  · rw [hkernel]
    exact hexact.convertWith_run hd hsize

/-- The kernel of unroll factor 6 from binary32 to binary16 converts blocks of 96 floats. -/
def unrolledSix : Kernel := Registry.compiled.kernels.get ⟨2, by decide⟩

/-- A dispatcher that has this kernel and no other. -/
def onlySix : Dispatcher :=
  ⟨.ofList unrolledSix.requires, assign (fun _ => none) .f32ToF16 (some unrolledSix)⟩

/-- Of 262144 floats, in eleven chunks from last to first, blocks of 96 leave a tail of 64. -/
theorem parConvert_covers_onlySix :
    ∃ spans w', onlySix.parConvertSpans lastFirst .f32ToF16 (Array.replicate 262144 0x3F800000)
          ⟨Array.replicate 262144 7, #[]⟩ = .ok spans w' ∧
      w'.calls.toList = List.replicate 11 unrolledSix ∧ (spans.map Span.length).sum = 262080 := by
  have hmem : unrolledSix ∈ Registry.compiled.kernels := List.get_mem _ _
  have hkernel : onlySix.kernel .f32ToF16 = some unrolledSix := rfl
  -- the lengths are all that matters of the buffers, which are too long to compute with
  have hrun : ∀ (src : Array UInt32) (dst : Array UInt16), src.size = 262144 →
      dst.size = 262144 → ∃ spans w',
        onlySix.parConvertSpans lastFirst .f32ToF16 src ⟨dst, #[]⟩ = .ok spans w' ∧
        w'.calls.toList = List.replicate 11 unrolledSix ∧
        (spans.map Span.length).sum = 262080 := by
    intro src dst hsrc hdst
    obtain ⟨spans, w', hspans, -, hcalls, -, -, -, -, hsum, -⟩ :=
      parConvert_covers hmem (d := .f32ToF16) rfl hkernel src ⟨dst, #[]⟩
        (hsrc.trans hdst.symm) hsrc.ge (lastFirst_perm _)
    rw [hsrc] at hcalls hsum
    exact ⟨spans, w', hspans, hcalls, hsum⟩
  exact hrun _ _ Array.size_replicate Array.size_replicate

end Dispatcher

end Lanewise

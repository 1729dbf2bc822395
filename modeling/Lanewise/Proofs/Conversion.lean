/-
Lanewise/Proofs/Conversion.lean

Conversions with a kernel that honours the prefix are the scalar conversion.

On buffers of one length,

    convertWith kernel? d src w = .ok _ ⟨src.map d.scalar, _⟩

if the kernel, where there is one, is of direction `d` and honours the prefix
(`convertWith_run`): what it converted is right up to its count, and the tail is
converted element by element over whatever it left there.  On buffers of different
lengths the answer is the mismatch, and nothing has been touched
(`convertWith_mismatch`).  Nothing else happens.

Whatever kernels do, none but the given one is called (`moves_convertWith`).
-/
import Lanewise.Conversion
import Lanewise.Proofs.Contract
import Lanewise.Proofs.Runs
import Lanewise.Proofs.Slice

namespace Lanewise

variable {τ α : Type}

/-! ### The comparison of lengths -/

theorem check_lengths_of_eq {n m : Nat} (h : n = m) :
    (Converting.check (checkLengths n m) : Converting τ Unit) = pure () := by
  rw [checkLengths, if_pos h]
  rfl

theorem check_lengths_of_ne {n m : Nat} (h : n ≠ m) :
    (Converting.check (checkLengths n m) : Converting τ Unit)
      = throw (.error (.lengthMismatch n m)) := by
  rw [checkLengths, if_neg h]
  rfl

/-! ### Which kernels are called -/

/-- The calls of the first workspace, and after them calls of kernels in `P` only. -/
def CallsOnly (P : Kernel → Prop) (w w' : Workspace τ) : Prop :=
  ∃ later : List Kernel, w'.calls.toList = w.calls.toList ++ later ∧ ∀ k ∈ later, P k

instance (P : Kernel → Prop) : IsPreorder (Workspace τ) (CallsOnly P) where
  refl w := ⟨[], (List.append_nil _).symm, List.forall_mem_nil P⟩
  trans := by
    rintro w w' w'' ⟨ks, h, hks⟩ ⟨ks', h', hks'⟩
    refine ⟨ks ++ ks', by rw [h', h, List.append_assoc], fun k hk => ?_⟩
    exact (List.mem_append.mp hk).elim (hks k) (hks' k)

section Calls

variable {P : Kernel → Prop} {d : Direction}

theorem moves_check (result : Except Error α) :
    Moves (CallsOnly P) (Converting.check result : Converting τ α) := by
  rcases result with e | a
  · exact Moves.throw (Stop.error e)
  · exact Moves.pure a

theorem moves_require (result : Except Fault α) :
    Moves (CallsOnly P) (Converting.require result : Converting τ α) := by
  rcases result with f | a
  · exact Moves.throw (Stop.fault f)
  · exact Moves.pure a

theorem moves_within {act : Converting τ α} (h : Moves (CallsOnly P) act) (start stop : Nat) :
    Moves (CallsOnly P) (Converting.within start stop act) := by
  intro w
  have hpart := h { w with dst := w.dst.extract start stop }
  rw [Converting.within]
  rcases e : act { w with dst := w.dst.extract start stop } with ⟨a, part⟩ | ⟨s, part⟩
  · rw [e] at hpart
    exact hpart
  · rw [e] at hpart
    exact hpart

theorem moves_convertScalar (src : Array d.Source) :
    Moves (CallsOnly P) (convertScalar d src) := by
  intro w
  rw [convertScalar]
  split_ifs
  · exact refl_of (CallsOnly P) w
  · exact refl_of (CallsOnly P) w

theorem moves_convertTail (src : Array d.Source) (start : Nat) :
    Moves (CallsOnly P) (convertTail d src start) := by
  refine Moves.bind (moves_require _) fun rest => Moves.bind Moves.get fun w => ?_
  exact Moves.bind (moves_require _) fun _ => moves_within (moves_convertScalar rest) _ _

theorem moves_call {k : Kernel} (h : P k) (src : Array k.direction.Source) :
    Moves (CallsOnly P) (k.call src) := by
  intro w
  have hpush : (w.calls.push k).toList = w.calls.toList ++ [k] := Array.toList_push
  rw [Kernel.call]
  split_ifs
  · exact ⟨[k], hpush, List.forall_mem_singleton.mpr h⟩
  · exact ⟨[k], hpush, List.forall_mem_singleton.mpr h⟩

theorem moves_invoke {k : Kernel} (h : P k) (src : Array d.Source) :
    Moves (CallsOnly P) (k.invoke d src) := by
  refine Moves.bind Moves.get fun w => Moves.bind (moves_check _) fun _ => ?_
  -- a kernel of another direction is refused, not called
  split_ifs with hd
  · subst hd
    exact moves_call h src
  · exact Moves.throw _

/-- No kernel is called but the one that is given. -/
theorem moves_convertWith {kernel? : Option Kernel} (h : ∀ k, kernel? = some k → P k)
    (src : Array d.Source) : Moves (CallsOnly P) (convertWith kernel? d src) := by
  refine Moves.bind Moves.get fun w => Moves.bind (moves_check _) fun _ => ?_
  -- with a kernel or without, the tail follows
  have hfinish : ∀ n, Moves (CallsOnly P) (convertTail d src n >>= fun _ => pure n) :=
    fun n => Moves.bind (moves_convertTail src n) fun _ => Moves.pure n
  rcases kernel? with _ | k
  · exact hfinish 0
  · exact Moves.bind (moves_invoke (h k rfl) src) hfinish

end Calls

/-! ### Element by element -/

section Results

variable {d : Direction} {src : Array d.Source} {w : Workspace d.Target} {start : Nat}

theorem convertTail_run (hstart : start ≤ src.size) (hsize : src.size = w.dst.size) :
    convertTail d src start w
      = .ok () { w with
          dst := Slice.splice w.dst start ((src.extract start src.size).map d.scalar) } := by
  have hsrc : Slice.checkTail start src.size = .ok () := if_neg (by omega)
  have hdst : Slice.checkTail start w.dst.size = .ok () := if_neg (by omega)
  have hrest : Slice.tail src start = .ok (src.extract start src.size) := by
    rw [Slice.tail, hsrc]
    rfl
  have hlengths : (src.extract start src.size).size = (w.dst.extract start w.dst.size).size := by
    rw [Array.size_extract, Array.size_extract, hsize]
  rw [convertTail, hrest]
  show (Converting.require (Slice.checkTail start w.dst.size) >>= fun _ =>
    Converting.within start w.dst.size (convertScalar d (src.extract start src.size))) w = _
  rw [hdst]
  show Converting.within start w.dst.size (convertScalar d (src.extract start src.size)) w = _
  rw [Converting.within, convertScalar, if_pos hlengths]

/-- A count past the end is met when the tail is cut off. -/
theorem convertTail_fault (h : src.size < start) :
    convertTail d src start w = .error (.fault (.rangeStart start src.size)) w := by
  have hsrc : Slice.tail src start = .error (.rangeStart start src.size) := by
    rw [Slice.tail, Slice.checkTail, if_pos h]
    rfl
  rw [convertTail, hsrc]
  rfl

/-- Converting the tail completes a prefix that is right. -/
theorem splice_tail (hstart : start ≤ src.size) (hsize : src.size = w.dst.size)
    (hlead : ∀ j < start, w.dst[j]? = (src.map d.scalar)[j]?) :
    Slice.splice w.dst start ((src.extract start src.size).map d.scalar) = src.map d.scalar := by
  refine Array.ext_getElem? fun j => ?_
  have hpart : ((src.extract start src.size).map d.scalar).size = src.size - start := by
    rw [Array.size_map, Array.size_extract, Nat.min_self]
  rw [Slice.getElem?_splice (by omega), hpart]
  by_cases hj : start ≤ j ∧ j < start + (src.size - start)
  · rw [if_pos hj, Array.getElem?_map, Array.getElem?_map, Array.getElem?_extract,
      if_pos (by omega), Nat.add_sub_cancel' hj.1]
  · rw [if_neg hj]
    -- what is not written lies before the tail or past the end
    rcases Nat.lt_or_ge j start with hlo | hhi
    · exact hlead j hlo
    · rw [Array.getElem?_eq_none (by omega), Array.getElem?_eq_none (by rw [Array.size_map]; omega)]

/-! ### With a kernel -/

/-- A called kernel leaves a buffer of the same length, and converted as it reports. -/
theorem Kernel.callFor_run {k : Kernel} (hd : k.direction = d) (hk : k.HonoursPrefix)
    (hsize : src.size = w.dst.size) :
    ∃ out count, k.callFor d hd src w = .ok count ⟨out, w.calls.push k⟩ ∧ out.size = src.size ∧
      count ≤ src.size ∧ ∀ j < count, out[j]? = (src.map d.scalar)[j]? := by
  subst hd
  obtain ⟨hcount, hout⟩ := hk src.size ⟨src, rfl⟩ ⟨w.dst, hsize.symm⟩
  refine ⟨_, _, dif_pos hsize.symm, Vector.size_toArray _, hcount, fun j hj => ?_⟩
  have hlt : j < src.size := Nat.lt_of_lt_of_le hj hcount
  have hconverted := hout j hlt hj
  rw [Array.getElem?_map, Array.getElem?_eq_getElem hlt, Vector.getElem?_toArray,
    Vector.getElem?_eq_getElem hlt, hconverted]
  rfl

theorem Kernel.invoke_run {k : Kernel} (hd : k.direction = d) (hsize : src.size = w.dst.size) :
    k.invoke d src w = k.callFor d hd src w := by
  rw [Kernel.invoke, dif_pos hd]
  show (Converting.check (checkLengths src.size w.dst.size) >>= fun _ => k.callFor d hd src) w = _
  rw [check_lengths_of_eq hsize]
  rfl

/-- On buffers of one length, the kernel comes first and the tail after it. -/
theorem convertWith_some_run {k : Kernel} {count : Nat} {w' : Workspace d.Target}
    (hsize : src.size = w.dst.size) (h : k.invoke d src w = .ok count w') :
    convertWith (some k) d src w = (convertTail d src count >>= fun _ => pure count) w' := by
  show (Converting.check (checkLengths src.size w.dst.size) >>= fun _ =>
    k.invoke d src >>= fun count => convertTail d src count >>= fun _ => pure count) w = _
  rw [check_lengths_of_eq hsize]
  exact run_bind_of_ok h

/-- Without a kernel nothing is converted at first, so the tail is the whole buffer. -/
theorem convertWith_none_run (hsize : src.size = w.dst.size) :
    convertWith none d src w = .ok 0 ⟨src.map d.scalar, w.calls⟩ := by
  have htail := convertTail_run (Nat.zero_le src.size) hsize
  rw [splice_tail (Nat.zero_le _) hsize (fun j hj => absurd hj (Nat.not_lt_zero j))] at htail
  show (Converting.check (checkLengths src.size w.dst.size) >>= fun _ =>
    convertTail d src 0 >>= fun _ => pure 0) w = _
  rw [check_lengths_of_eq hsize]
  exact run_bind_of_ok htail

/-- What the kernel converted as it reports is kept, and the tail is written over whatever it left
past its count. -/
theorem convertWith_of_invoke {k : Kernel} {count : Nat} {out : Array d.Target}
    {calls : Array Kernel} (hsize : src.size = w.dst.size)
    (hinvoke : k.invoke d src w = .ok count ⟨out, calls⟩) (hout : out.size = src.size)
    (hcount : count ≤ src.size) (hlead : ∀ j < count, out[j]? = (src.map d.scalar)[j]?) :
    convertWith (some k) d src w = .ok count ⟨src.map d.scalar, calls⟩ := by
  have htail := convertTail_run (w := ⟨out, calls⟩) hcount hout.symm
  rw [splice_tail hcount hout.symm hlead] at htail
  rw [convertWith_some_run hsize hinvoke]
  exact run_bind_of_ok htail

/-- **The result is the scalar one**, with any kernel that honours the prefix or none. -/
theorem convertWith_run {kernel? : Option Kernel}
    (hk : ∀ k, kernel? = some k → k.direction = d ∧ k.HonoursPrefix)
    (hsize : src.size = w.dst.size) :
    ∃ count calls, convertWith kernel? d src w = .ok count ⟨src.map d.scalar, calls⟩ := by
  rcases kernel? with _ | k
  · exact ⟨0, w.calls, convertWith_none_run hsize⟩
  · obtain ⟨hd, hhonours⟩ := hk k rfl
    obtain ⟨out, count, hcall, hout, hcount, hlead⟩ := Kernel.callFor_run hd hhonours hsize
    have hinvoke := (Kernel.invoke_run hd hsize).trans hcall
    exact ⟨count, w.calls.push k, convertWith_of_invoke hsize hinvoke hout hcount hlead⟩

/-- Different lengths are refused before anything is done. -/
theorem convertWith_mismatch {kernel? : Option Kernel} (h : src.size ≠ w.dst.size) :
    convertWith kernel? d src w
      = .error (.error (.lengthMismatch src.size w.dst.size)) w := by
  show (Converting.check (checkLengths src.size w.dst.size) >>= _) w = _
  rw [check_lengths_of_ne h]
  rfl

end Results

end Lanewise

/-
Lanewise/Proofs/Buffers.lean

What a request for a buffer comes to.

A request is refused for the first thing that is wrong with it: an alignment below that of the
elements, a size of `2 ^ 64` bytes or more, a layout that no memory can have.  What is left is
asked of the allocator, unless there are no bytes.  `Outcome` lists the cases, and a request
comes to what it says and nothing else (`zeroedFrom_eq_iff`).  An accepted alignment is at
least the elements' own, so it is not zero, and a buffer of no bytes always has an address
(`dangling_of_accepted`).

Memory can have a size and an alignment if the alignment is a power of two and some multiple of
it has room for the size below `2 ^ 63`.  Rounding the size up finds the least such multiple
(`roundUp_le_iff`), so this is what the definition decides (`isLayout_iff`).

Nothing is assumed of the allocator.
-/
import Mathlib.Algebra.Order.Floor.Div
import Mathlib.Tactic
import Lanewise.AlignedBuffer
import Lanewise.Proofs.Session
import Lanewise.Proofs.Slice

namespace Lanewise

namespace AlignedBuffer

variable {e : Element} {size length alignment : Nat}

/-! ### Layouts that memory can have -/

/-- The alignment is a power of two, and a multiple of it has room for the size below `2 ^ 63`. -/
def Possible (size alignment : Nat) : Prop :=
  (∃ k, alignment = 2 ^ k) ∧ ∃ room, alignment ∣ room ∧ size ≤ room ∧ room < 2 ^ 63

theorem isPowerOfTwo_iff {n : Nat} : isPowerOfTwo n = true ↔ ∃ k, n = 2 ^ k := by
  rw [isPowerOfTwo, Bool.and_eq_true, bne_iff_ne, beq_iff_eq, Nat.one_shiftLeft]
  constructor
  · rintro ⟨-, h⟩
    exact ⟨n.log2, h.symm⟩
  · rintro ⟨k, rfl⟩
    exact ⟨by positivity, by rw [Nat.log2_two_pow]⟩

theorem dvd_roundUp (size alignment : Nat) : alignment ∣ roundUp size alignment :=
  Dvd.intro_left _ rfl

/-- Rounding up finds the least multiple with room for the size. -/
theorem roundUp_le_iff (halignment : 0 < alignment) {room : Nat} (hroom : alignment ∣ room) :
    roundUp size alignment ≤ room ↔ size ≤ room := by
  obtain ⟨count, rfl⟩ := hroom
  rw [roundUp, ← Nat.ceilDiv_eq_add_pred_div, Nat.mul_comm,
    Nat.mul_le_mul_left_iff halignment, ceilDiv_le_iff_le_mul halignment]

theorem isLayout_iff : isLayout size alignment = true ↔ Possible size alignment := by
  rw [isLayout, Bool.and_eq_true, isPowerOfTwo_iff, decide_eq_true_iff, Possible]
  refine and_congr_right fun ⟨k, hk⟩ => ?_
  have halignment : 0 < alignment := by
    rw [hk]
    positivity
  have hroundUp := dvd_roundUp size alignment
  constructor
  · intro hlt
    exact ⟨_, hroundUp, (roundUp_le_iff halignment hroundUp).mp le_rfl, hlt⟩
  · rintro ⟨room, hroom, hsize, hlt⟩
    exact ((roundUp_le_iff halignment hroom).mpr hsize).trans_lt hlt

/-! ### Requests -/

/-- There is nothing wrong with a request. -/
structure Accepted (e : Element) (length alignment : Nat) : Prop where
  aligned : e.width ≤ alignment
  size_lt : length * e.width < 2 ^ 64
  possible : Possible (length * e.width) alignment

theorem layout_of_below (h : alignment < e.width) :
    layout e length alignment
      = .error (.layout length alignment ("alignment below that of " ++ e.name)) :=
  if_pos h

theorem layout_of_overflow (haligned : e.width ≤ alignment) (h : 2 ^ 64 ≤ length * e.width) :
    layout e length alignment
      = .error (.layout length alignment "total size overflows usize") := by
  rw [layout, if_neg (Nat.not_lt.mpr haligned)]
  exact if_pos h

theorem layout_of_impossible (haligned : e.width ≤ alignment) (hsize : length * e.width < 2 ^ 64)
    (h : ¬ Possible (length * e.width) alignment) :
    layout e length alignment = .error (.layout (length * e.width) alignment
      "invalid parameters to Layout::from_size_align") := by
  have hlayout : isLayout (length * e.width) alignment = false :=
    Bool.eq_false_iff.mpr (mt isLayout_iff.mp h)
  rw [layout, if_neg (Nat.not_lt.mpr haligned), hlayout]
  exact if_neg (Nat.not_le.mpr hsize)

theorem layout_of_accepted (h : Accepted e length alignment) :
    layout e length alignment = .ok (length * e.width) := by
  rw [layout, if_neg (Nat.not_lt.mpr h.aligned), isLayout_iff.mpr h.possible]
  exact if_neg (Nat.not_le.mpr h.size_lt)

/-- An accepted alignment can be the address of a buffer of no bytes. -/
theorem dangling_of_accepted (h : Accepted e length alignment) :
    dangling size alignment = .ok alignment := by
  have hwidth : 0 < e.width := by cases e <;> decide
  exact if_neg (hwidth.trans_le h.aligned).ne'

/-! ### Buffers of zeros -/

/-- What a buffer of zeros is: every element and every byte is zero. -/
structure Fresh (buffer : AlignedBuffer e) (length alignment : Nat) : Prop where
  length_eq : buffer.length = length
  alignment_eq : buffer.alignment = alignment
  zero : ∀ i < length, buffer.data[i]? = some e.zero
  bytes_eq : buffer.bytes = List.replicate (length * e.width) 0

/-- The buffer that an accepted request leads to. -/
def blank (e : Element) (length alignment : Nat) : AlignedBuffer e :=
  ⟨Array.replicate length e.zero, alignment⟩

theorem bytes_zero (e : Element) : e.bytes e.zero = List.replicate e.width 0 := by
  cases e <;> rfl

theorem fresh_blank (e : Element) (length alignment : Nat) :
    (blank e length alignment).Fresh length alignment where
  length_eq := Array.size_replicate
  alignment_eq := rfl
  zero i hi := by rw [blank, Array.getElem?_replicate, if_pos hi]
  bytes_eq := by
    rw [bytes, blank, Element.bytesOf, Array.toList_replicate, List.flatMap_replicate, bytes_zero,
      List.flatten_replicate_replicate]

/-- What a request for zeros comes to on a host.  The conditions exclude each other, so every
request has one outcome; the host changes only if the allocator is asked. -/
inductive Outcome (allocator : Allocator) (e : Element) (length alignment : Nat) (host : Host) :
    EStateM.Result Stop Host (AlignedBuffer e) → Prop where
  | below : alignment < e.width →
    Outcome allocator e length alignment host (.error (.error
      (.layout length alignment ("alignment below that of " ++ e.name))) host)
  | overflow : e.width ≤ alignment → 2 ^ 64 ≤ length * e.width →
    Outcome allocator e length alignment host (.error (.error
      (.layout length alignment "total size overflows usize")) host)
  | impossible : e.width ≤ alignment → length * e.width < 2 ^ 64 →
    ¬ Possible (length * e.width) alignment →
    Outcome allocator e length alignment host (.error (.error
      (.layout (length * e.width) alignment "invalid parameters to Layout::from_size_align")) host)
  | empty : Accepted e length alignment → length * e.width = 0 →
    Outcome allocator e length alignment host (.ok (blank e length alignment) host)
  | null (after : Host) : Accepted e length alignment → length * e.width ≠ 0 →
    allocator (length * e.width) alignment host = (true, after) →
    Outcome allocator e length alignment host (.error (.error
      (.allocation (length * e.width) alignment "allocator returned null")) after)
  | granted (after : Host) : Accepted e length alignment → length * e.width ≠ 0 →
    allocator (length * e.width) alignment host = (false, after) →
    Outcome allocator e length alignment host (.ok (blank e length alignment) after)

section Runs

variable {allocator : Allocator} {host after : Host}

theorem zeroedFrom_of_refused {cause : Error} (h : layout e length alignment = .error cause) :
    zeroedFrom allocator e length alignment host = .error (.error cause) host := by
  rw [zeroedFrom, h]
  rfl

theorem zeroedFrom_of_empty (h : Accepted e length alignment) (hempty : length * e.width = 0) :
    zeroedFrom allocator e length alignment host = .ok (blank e length alignment) host := by
  rw [zeroedFrom, layout_of_accepted h]
  show (if length * e.width = 0 then _ else _ : Session _) host = _
  rw [if_pos hempty, dangling_of_accepted h]
  rfl

theorem zeroedFrom_of_asked (h : Accepted e length alignment) (hbytes : length * e.width ≠ 0) :
    zeroedFrom allocator e length alignment host
      = (Session.allocate allocator (length * e.width) alignment >>= fun _ =>
          pure (blank e length alignment)) host := by
  rw [zeroedFrom, layout_of_accepted h]
  show (if length * e.width = 0 then _ else _ : Session _) host = _
  rw [if_neg hbytes]
  rfl

variable {result : EStateM.Result Stop Host (AlignedBuffer e)}

/-- One of the conditions holds. -/
theorem exists_outcome (allocator : Allocator) (e : Element) (length alignment : Nat)
    (host : Host) : ∃ result, Outcome allocator e length alignment host result := by
  rcases Nat.lt_or_ge alignment e.width with hbelow | haligned
  · exact ⟨_, .below hbelow⟩
  rcases Nat.lt_or_ge (length * e.width) (2 ^ 64) with hsize | hover
  · by_cases hpossible : Possible (length * e.width) alignment
    · have haccepted : Accepted e length alignment := ⟨haligned, hsize, hpossible⟩
      by_cases hbytes : length * e.width = 0
      · exact ⟨_, .empty haccepted hbytes⟩
      · rcases hanswer : allocator (length * e.width) alignment host with ⟨null | null, after⟩
        · exact ⟨_, .granted after haccepted hbytes hanswer⟩
        · exact ⟨_, .null after haccepted hbytes hanswer⟩
    · exact ⟨_, .impossible haligned hsize hpossible⟩
  · exact ⟨_, .overflow haligned hover⟩

/-- Under each of the conditions, the outcome is what the request comes to. -/
theorem zeroedFrom_of_outcome (h : Outcome allocator e length alignment host result) :
    zeroedFrom allocator e length alignment host = result := by
  cases h with
  | below hbelow => exact zeroedFrom_of_refused (layout_of_below hbelow)
  | overflow haligned hover => exact zeroedFrom_of_refused (layout_of_overflow haligned hover)
  | impossible haligned hsize himpossible =>
    exact zeroedFrom_of_refused (layout_of_impossible haligned hsize himpossible)
  | empty haccepted hempty => exact zeroedFrom_of_empty haccepted hempty
  | null _ haccepted hbytes hanswer =>
    rw [zeroedFrom_of_asked haccepted hbytes]
    exact run_bind_of_error (Session.allocate_of_null hanswer)
  | granted _ haccepted hbytes hanswer =>
    rw [zeroedFrom_of_asked haccepted hbytes]
    exact run_bind_of_ok (Session.allocate_of_granted hanswer)

theorem zeroedFrom_eq_iff :
    zeroedFrom allocator e length alignment host = result ↔
      Outcome allocator e length alignment host result := by
  refine ⟨?_, zeroedFrom_of_outcome⟩
  -- there is an outcome, and the request comes to it, so it is this one
  rintro rfl
  obtain ⟨result, h⟩ := exists_outcome allocator e length alignment host
  rwa [zeroedFrom_of_outcome h]

namespace Outcome

theorem eq_blank (h : Outcome allocator e length alignment host result)
    {buffer : AlignedBuffer e} (hresult : result = .ok buffer after) :
    buffer = blank e length alignment := by
  cases h with
  | below | overflow | impossible | null => cases hresult
  | empty | granted => cases hresult; rfl

/-- An accepted alignment is not zero, so no request fails for that. -/
theorem ne_zero_alignment (h : Outcome allocator e length alignment host result)
    {size align : Nat} :
    result ≠ .error (.error (.layout size align "alignment must be non-zero")) after := by
  cases h with
  | below => cases e <;> simp [Element.name]
  | overflow | impossible | null => simp
  | empty | granted => exact nofun

end Outcome

/-! ### Buffers of values -/

variable {values : Array e.Bits}

theorem ofArrayFrom_of_error {stop : Stop}
    (h : zeroedFrom allocator e values.size alignment host = .error stop after) :
    ofArrayFrom allocator e values alignment host = .error stop after := by
  rw [ofArrayFrom]
  exact run_bind_of_error h

theorem ofArrayFrom_of_ok
    (h : zeroedFrom allocator e values.size alignment host
      = .ok (blank e values.size alignment) after) :
    ofArrayFrom allocator e values alignment host = .ok ⟨values, alignment⟩ after := by
  have hoverwrite : Slice.overwrite (blank e values.size alignment).data values = .ok values :=
    Slice.overwrite_of_size_eq Array.size_replicate.symm
  rw [ofArrayFrom, run_bind_of_ok h, hoverwrite]
  rfl

end Runs

/-- **Every request for a buffer is classified**, for any allocator: refused for the first thing
that is wrong with it, granted without memory if it has no bytes, and otherwise granted or refused
as the allocator answers.  A granted buffer is fresh, and its alignment was never found to be zero.
A buffer of values is refused exactly as one of zeros is, and holds the values otherwise. -/
theorem zeroedFrom_classified (allocator : Allocator) (e : Element) (length alignment : Nat)
    (host : Host) :
    (∀ result, zeroedFrom allocator e length alignment host = result ↔
      Outcome allocator e length alignment host result) ∧
    (∀ buffer after, zeroedFrom allocator e length alignment host = .ok buffer after →
      buffer.Fresh length alignment) ∧
    (∀ size align after, zeroedFrom allocator e length alignment host
      ≠ .error (.error (.layout size align "alignment must be non-zero")) after) ∧
    ∀ values : Array e.Bits, values.size = length →
      (∀ stop after, zeroedFrom allocator e length alignment host = .error stop after →
        ofArrayFrom allocator e values alignment host = .error stop after) ∧
      ∀ buffer after, zeroedFrom allocator e length alignment host = .ok buffer after →
        ofArrayFrom allocator e values alignment host = .ok ⟨values, alignment⟩ after := by
  have houtcome := zeroedFrom_eq_iff.mp (Eq.refl (zeroedFrom allocator e length alignment host))
  refine ⟨fun _ => zeroedFrom_eq_iff, fun buffer after hok => ?_,
    fun _ _ _ => houtcome.ne_zero_alignment, ?_⟩
  · rw [houtcome.eq_blank hok]
    exact fresh_blank e length alignment
  · rintro values rfl
    refine ⟨fun _ _ => ofArrayFrom_of_error, fun buffer after hok => ofArrayFrom_of_ok ?_⟩
    rw [hok, houtcome.eq_blank hok]

/-- At the greatest alignment there is room for no byte.  Three floats need twelve bytes, which an
allocator may refuse. -/
theorem zeroedFrom_classified_at_limits :
    (∃ buffer, zeroedFrom Host.allocator .u8 0 0x8000000000000000 (Host.refusing [])
        = .ok buffer (Host.refusing []) ∧ buffer.Fresh 0 0x8000000000000000) ∧
      zeroedFrom Host.allocator .u8 1 0x8000000000000000 (Host.refusing [])
        = .error (.error (.layout 1 0x8000000000000000
          "invalid parameters to Layout::from_size_align")) (Host.refusing []) ∧
      ofArrayFrom (fun _ _ host => (true, host)) .f32 #[1, 2, 3] 16 (Host.refusing [])
        = .error (.error (.allocation 12 16 "allocator returned null")) (Host.refusing []) ∧
      ofArrayFrom Host.allocator .f32 #[1, 2, 3] 16 (Host.refusing [])
        = .ok ⟨#[1, 2, 3], 16⟩ (Host.refusing []) := by
  have hempty : zeroedFrom Host.allocator .u8 0 0x8000000000000000 (Host.refusing [])
      = .ok (blank .u8 0 0x8000000000000000) (Host.refusing []) := rfl
  have himpossible : ¬ Possible (1 * Element.u8.width) 0x8000000000000000 :=
    mt isLayout_iff.mpr (by decide)
  have hnull : zeroedFrom (fun _ _ host => (true, host)) .f32 3 16 (Host.refusing [])
      = .error (.error (.allocation 12 16 "allocator returned null")) (Host.refusing []) := rfl
  have hgranted : zeroedFrom Host.allocator .f32 3 16 (Host.refusing [])
      = .ok (blank .f32 3 16) (Host.refusing []) := rfl
  refine ⟨⟨_, hempty, ?_⟩, ?_, ?_, ?_⟩
  · exact (zeroedFrom_classified _ _ _ _ _).2.1 _ _ hempty
  · exact ((zeroedFrom_classified _ _ _ _ _).1 _).mpr
      (.impossible (by decide) (by decide) himpossible)
  · exact ((zeroedFrom_classified _ _ _ _ _).2.2.2 #[1, 2, 3] rfl).1 _ _ hnull
  · exact ((zeroedFrom_classified _ _ _ _ _).2.2.2 #[1, 2, 3] rfl).2 _ _ hgranted

end AlignedBuffer

end Lanewise

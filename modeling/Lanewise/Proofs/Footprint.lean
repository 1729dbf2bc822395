/-
Lanewise/Proofs/Footprint.lean

Which elements a loop touches.

Loads and stores take a start and no length of the buffer, so only the loop's own counting
keeps it within the buffers.  Here a loop runs with every load and every store noted down
(`Loop.touch`).  The notes change nothing (`Loop.touch_run`):

    touch unroll body src { dst } = (stop, { dst := (run unroll body src dst).1, .. })

What one run of a body loads, and what it stores, are the elements from its position up to
its width (`Body.flatMap_loads`, `Body.flatMap_stores`); the positions tile the prefix that
blocks fill (`flatMap_positions`); so a loop loads and stores each element of the prefix
once, in order, and touches nothing past it (`Loop.touch_indices`).  With the order of the
lanes from `Proofs/Families.lean` this is said of every row of the three tables in
`Family.within_prefix`.
-/
import Lanewise.Proofs.Families

namespace Lanewise

/-- The destination of a loop under way, with the spans of the source loaded so far and the
spans of the destination stored to, in order. -/
structure Touched (β : Type) (n : Nat) where
  dst : Vector β n
  loaded : List Span := []
  stored : List Span := []

/-- Computations on a destination that note what they load and store. -/
abbrev Touching (β : Type) (n : Nat) (γ : Type) : Type := StateM (Touched β n) γ

namespace Touching

variable {α β : Type} {n : Nat}

/-- Loads `k` elements of the source. -/
def load [Inhabited α] (src : Vector α n) (k start : Nat) : Touching β n (Vector α k) := fun t =>
  (Lanes.load k src start, { t with loaded := t.loaded ++ [⟨start, k⟩] })

/-- Stores a register of `k` lanes. -/
def store {k : Nat} (start : Nat) (v : Vector β k) : Touching β n Unit := fun t =>
  ((), { t with dst := Lanes.store t.dst start v, stored := t.stored ++ [⟨start, k⟩] })

end Touching

namespace Loop

variable {α β : Type} {lanes n : Nat}

namespace Body

/-- Runs the body at a position, load by load and store by store. -/
def touch [Inhabited α] (body : Body α β lanes) (src : Vector α n) (start : Nat) :
    Touching β n Unit :=
  match body with
  | single f => do
    let v ← Touching.load src lanes start
    Touching.store start (f v)
  | merged f => do
    let a ← Touching.load src lanes start
    let b ← Touching.load src lanes (start + lanes)
    Touching.store start (f a b)
  | split f => do
    let v ← Touching.load src (lanes + lanes) start
    Touching.store start (f v).1
    Touching.store (start + lanes) (f v).2

theorem touch_run [Inhabited α] (body : Body α β lanes) (src : Vector α n) (start : Nat)
    (t : Touched β n) :
    body.touch src start t = ((), {
      dst := body.apply src t.dst start
      loaded := t.loaded ++ body.loads start
      stored := t.stored ++ body.stores start }) := by
  cases body with
  | single f => rfl
  | merged f =>
    show ((), Touched.mk _ (t.loaded ++ [⟨start, lanes⟩] ++ [⟨start + lanes, lanes⟩]) _) = _
    rw [List.append_assoc]
    rfl
  | split f =>
    show ((), Touched.mk _ _ (t.stored ++ [⟨start, lanes⟩] ++ [⟨start + lanes, lanes⟩])) = _
    rw [List.append_assoc]
    rfl

theorem forM_touch_run [Inhabited α] (body : Body α β lanes) (src : Vector α n)
    (starts : List Nat) (t : Touched β n) :
    starts.forM (body.touch src) t = ((), {
      dst := starts.foldl (body.apply src) t.dst
      loaded := t.loaded ++ starts.flatMap body.loads
      stored := t.stored ++ starts.flatMap body.stores }) := by
  induction starts generalizing t with
  | nil => simp only [List.flatMap_nil, List.append_nil]; rfl
  | cons start rest ih =>
    show rest.forM (body.touch src) (body.touch src start t).2 = _
    rw [touch_run, ih, List.flatMap_cons, List.flatMap_cons, List.append_assoc, List.append_assoc]
    rfl

theorem flatMap_loads (body : Body α β lanes) (start : Nat) :
    (body.loads start).flatMap Span.indices = List.range' start (body.registers * lanes) := by
  cases body with
  | single f =>
    rw [loads, List.flatMap_singleton, registers, Nat.one_mul]
    rfl
  | merged f =>
    rw [loads, List.flatMap_cons, List.flatMap_singleton, registers, Nat.two_mul]
    exact List.range'_append_1
  | split f =>
    rw [loads, List.flatMap_singleton, registers, Nat.two_mul]
    rfl

theorem flatMap_stores (body : Body α β lanes) (start : Nat) :
    (body.stores start).flatMap Span.indices = List.range' start (body.registers * lanes) := by
  cases body with
  | single f =>
    rw [stores, List.flatMap_singleton, registers, Nat.one_mul]
    rfl
  | merged f =>
    rw [stores, List.flatMap_singleton, registers, Nat.two_mul]
    rfl
  | split f =>
    rw [stores, List.flatMap_cons, List.flatMap_singleton, registers, Nat.two_mul]
    exact List.range'_append_1

end Body

/-- Runs a body over the prefix of a buffer, load by load and store by store, and tells how
long the prefix is. -/
def touch [Inhabited α] (unroll : Nat) (body : Body α β lanes) (src : Vector α n) :
    Touching β n Nat := do
  let stop := reach (lanes * unroll) n
  (positions lanes unroll body.registers stop).forM (body.touch src)
  return stop

/-- Noting what is touched changes neither the destination nor the count. -/
theorem touch_run [Inhabited α] (unroll : Nat) (body : Body α β lanes) (src : Vector α n)
    (dst : Vector β n) :
    touch unroll body src { dst } = (reach (lanes * unroll) n, {
      dst := (run unroll body src dst).1
      loaded := (positions lanes unroll body.registers (reach (lanes * unroll) n)).flatMap
        body.loads
      stored := (positions lanes unroll body.registers (reach (lanes * unroll) n)).flatMap
        body.stores }) := by
  show (reach (lanes * unroll) n, ((positions lanes unroll body.registers
    (reach (lanes * unroll) n)).forM (body.touch src) { dst }).2) = _
  rw [Body.forM_touch_run, List.nil_append, List.nil_append]
  rfl

/-- **A loop loads and stores each element of the prefix once**, in order, and no other. -/
theorem touch_indices [Inhabited α] (hlanes : 0 < lanes) {unroll : Nat} (hunroll : 0 < unroll)
    {body : Body α β lanes} (hreg : body.registers ∣ unroll) (src : Vector α n)
    (dst : Vector β n) :
    (touch unroll body src { dst }).2.loaded.flatMap Span.indices
        = List.range (reach (lanes * unroll) n) ∧
      (touch unroll body src { dst }).2.stored.flatMap Span.indices
        = List.range (reach (lanes * unroll) n) := by
  have htile := flatMap_positions hlanes hreg hunroll (dvd_reach (lanes * unroll) n)
  rw [touch_run, List.flatMap_assoc, List.flatMap_assoc]
  simp only [Body.flatMap_loads, Body.flatMap_stores]
  exact ⟨htile, htile⟩

end Loop

/-! ### The tables -/

namespace Family

theorem unrolls_pos : ∀ unroll ∈ unrolls, 0 < unroll := by decide

/-- **The loops of all tables stay within the prefix and keep the order of elements.**  Run with
its loads and stores noted, a loop gives what the kernel gives.  It loads from the prefix
alone; what it stores, each index once, is the prefix; and the lane that it stores at an index
is the conversion of the element loaded from there. -/
theorem within_prefix {family : Family}
    (hfamily : family ∈ [Sse41.family, Avx2.family, Avx512.family])
    {row : Row family.lanes} (hrow : row ∈ family.rows) {unroll : Nat} (hunroll : unroll ∈ unrolls)
    {n : Nat} (src : Vector row.direction.Source n) (dst : Vector row.direction.Target n) :
    ∃ touched : Touched row.direction.Target n,
      Loop.touch unroll row.body src { dst } = (n - n % (family.lanes * unroll), touched) ∧
      (row.kernel family.isa unroll).func src dst
        = (touched.dst, n - n % (family.lanes * unroll)) ∧
      (∀ span ∈ touched.loaded, ∀ i ∈ span.indices, i < n - n % (family.lanes * unroll)) ∧
      (∀ span ∈ touched.stored, ∀ i ∈ span.indices, i < n - n % (family.lanes * unroll)) ∧
      touched.stored.flatMap Span.indices = List.range (n - n % (family.lanes * unroll)) ∧
      ∀ (i : Nat) (h : i < n), touched.dst[i]
        = if i < n - n % (family.lanes * unroll) then row.direction.scalar src[i] else dst[i] := by
  obtain ⟨hlanes, hcomputes⟩ : 0 < family.lanes ∧ row.body.Computes row.direction.scalar := by
    simp only [List.mem_cons, List.not_mem_nil, or_false] at hfamily
    rcases hfamily with rfl | rfl | rfl
    · exact ⟨by decide, Sse41.computes row hrow⟩
    · exact ⟨by decide, Avx2.computes row hrow⟩
    · exact ⟨by decide, Avx512.computes row hrow⟩
  have hpos := unrolls_pos unroll hunroll
  have hreg := registers_dvd row.body hunroll
  obtain ⟨hloaded, hstored⟩ := Loop.touch_indices hlanes hpos hreg src dst
  refine ⟨(Loop.touch unroll row.body src { dst }).2, ?_, ?_, ?_, ?_, hstored, ?_⟩
  · rw [Loop.touch_run]
    rfl
  · rw [Loop.touch_run]
    rfl
  · intro span hspan i hi
    exact List.mem_range.mp (hloaded ▸ List.mem_flatMap.mpr ⟨span, hspan, hi⟩)
  · intro span hspan i hi
    exact List.mem_range.mp (hstored ▸ List.mem_flatMap.mpr ⟨span, hspan, hi⟩)
  · intro i hi
    simp only [Loop.touch_run]
    exact Loop.getElem_run hcomputes hlanes hpos hreg src dst hi

/-- Of 100 floats, 256-bit registers in blocks of six fill 96 bytes. -/
theorem within_prefix_avx2 :
    ∃ touched : Touched UInt8 100,
      Loop.touch 6 (Avx2.f32ToU8 Lanes.saturated) (Vector.replicate 100 0x43000000)
        { dst := Vector.replicate 100 7 } = (96, touched) ∧
      (∀ span ∈ touched.loaded, ∀ i ∈ span.indices, i < 96) ∧
      touched.stored.flatMap Span.indices = List.range 96 ∧
      touched.dst[95] = 128 ∧ touched.dst[96] = 7 := by
  have hrow : (⟨.f32ToU8 .saturating, false, true, [.avx2], Avx2.f32ToU8 Lanes.saturated⟩ :
      Row Avx2.family.lanes) ∈ Avx2.family.rows := List.mem_of_getElem? (i := 6) rfl
  have hfamily : Avx2.family ∈ [Sse41.family, Avx2.family, Avx512.family] :=
    List.mem_of_getElem? (i := 1) rfl
  have hunroll : 6 ∈ unrolls := by decide
  obtain ⟨touched, htouch, -, hloaded, -, hstored, hlane⟩ := within_prefix hfamily hrow hunroll
    (Vector.replicate 100 0x43000000) (Vector.replicate 100 7)
  refine ⟨touched, htouch, hloaded, hstored, (hlane 95 (by decide)).trans ?_,
    (hlane 96 (by decide)).trans ?_⟩
  · decide +kernel
  · decide +kernel

end Family

end Lanewise

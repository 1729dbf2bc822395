/-
Lanewise/Proofs/Preference.lean

The order of preference among candidates.

The candidates of a direction are sorted by a stable sort, so what is known of one step of
the sort decides everything: a new entry at the front of the registry goes before the
first candidate that it is as welcome as (`mergeSort_cons_split`).  By induction on the
registry,

  * dropping kernels before or after the sorting is the same (`filter_mergeSort`), so
    masking features only drops candidates (`candidates_restrict`),
  * the first candidate is the first entry among the most welcome ones
    (`head?_mergeSort`), which can be said without sorting (`candidates_head?`), and
  * entries that are equally welcome stay in their order (`pairwise_mergeSort_stable`).  An
    entry is a position, since the same kernel may be in a registry twice; `order` sorts the
    positions, and says all there is to say of the candidates (`candidates_stable`).
-/
import Mathlib.Tactic
import Lanewise.Proofs.Selection

namespace Lanewise

/-! ### Stable sorting -/

section

variable {α : Type} {le : α → α → Bool}

/-- A list is cut in one way only into a part of which something holds and a part of which
it does not. -/
theorem append_inj_of_forall {q : α → Bool} {as bs cs ds : List α} (h : as ++ bs = cs ++ ds)
    (has : ∀ a ∈ as, q a = true) (hbs : ∀ b ∈ bs, q b = false) (hcs : ∀ c ∈ cs, q c = true)
    (hds : ∀ d ∈ ds, q d = false) : as = cs ∧ bs = ds := by
  have hfirst : ∀ xs ys : List α, (∀ x ∈ xs, q x = true) → (∀ y ∈ ys, q y = false) →
      (xs ++ ys).filter q = xs := by
    intro xs ys hxs hys
    rw [List.filter_append, List.filter_eq_self.mpr hxs,
      List.filter_eq_nil_iff.mpr fun y hy => by simp [hys y hy], List.append_nil]
  have hsame : as = cs := by rw [← hfirst as bs has hbs, h, hfirst cs ds hcs hds]
  exact ⟨hsame, List.append_cancel_left (hsame ▸ h)⟩

variable (htrans : ∀ a b c, le a b = true → le b c = true → le a c = true)
  (htotal : ∀ a b, (le a b || le b a) = true)

include htrans htotal

/-- An element at the front goes before the first one that it may precede. -/
theorem mergeSort_cons_split (a : α) (l : List α) :
    ∃ worse better, (a :: l).mergeSort le = better ++ a :: worse ∧
      l.mergeSort le = better ++ worse ∧ (∀ b ∈ better, le a b = false) ∧
      ∀ b ∈ worse, le a b = true := by
  obtain ⟨better, worse, hsort, hrest, hbetter⟩ := List.mergeSort_cons htrans htotal a l
  refine ⟨worse, better, hsort, hrest, fun b hb => by simpa using hbetter b hb, ?_⟩
  have hsorted := List.pairwise_mergeSort htrans htotal (a :: l)
  rw [hsort] at hsorted
  exact (List.pairwise_cons.mp (List.pairwise_append.mp hsorted).2.1).1

/-- **Sorting keeps the order of what is kept.** -/
theorem filter_mergeSort (p : α → Bool) (l : List α) :
    (l.filter p).mergeSort le = (l.mergeSort le).filter p := by
  induction l with
  | nil => simp
  | cons a l ih =>
    obtain ⟨worse, better, hsort, hrest, hbetter, hworse⟩ :=
      mergeSort_cons_split htrans htotal a l
    rw [hrest, List.filter_append] at ih
    by_cases ha : p a = true
    · obtain ⟨worse', better', hsort', hrest', hbetter', hworse'⟩ :=
        mergeSort_cons_split htrans htotal a (l.filter p)
      obtain ⟨rfl, rfl⟩ := append_inj_of_forall (q := fun b => !le a b) (hrest'.symm.trans ih)
        (fun b hb => by simp [hbetter' b hb]) (fun b hb => by simp [hworse' b hb])
        (fun b hb => by simp [hbetter b (List.mem_filter.mp hb).1])
        (fun b hb => by simp [hworse b (List.mem_filter.mp hb).1])
      rw [List.filter_cons_of_pos ha, hsort', hsort, List.filter_append,
        List.filter_cons_of_pos ha]
    · rw [List.filter_cons_of_neg ha, ih, hsort, List.filter_append, List.filter_cons_of_neg ha]

/-- **Sorting is stable.**  Of two elements of the sorted list the first may precede the second,
and where the second may precede the first as well, they are in their old order. -/
theorem pairwise_mergeSort_stable {earlier : α → α → Prop} {l : List α} (h : l.Pairwise earlier) :
    (l.mergeSort le).Pairwise fun a b => le a b = true ∧ (le b a = true → earlier a b) := by
  induction l with
  | nil => simp
  | cons a l ih =>
    obtain ⟨hfirst, hrest⟩ := List.pairwise_cons.mp h
    obtain ⟨worse, better, hsort, hsort', hbetter, hworse⟩ :=
      mergeSort_cons_split htrans htotal a l
    have hsorted := ih hrest
    rw [hsort', List.pairwise_append] at hsorted
    obtain ⟨hb, hw, hbw⟩ := hsorted
    have hmem : ∀ b ∈ worse, b ∈ l := fun b hb =>
      List.mem_mergeSort.mp (hsort' ▸ List.mem_append_right better hb)
    rw [hsort, List.pairwise_append, List.pairwise_cons]
    refine ⟨hb, ⟨fun b hb => ⟨hworse b hb, fun _ => hfirst b (hmem b hb)⟩, hw⟩, ?_⟩
    rintro b hb' c (_ | ⟨_, hc⟩)
    · -- what stands before the new element may not come after it
      have ha := hbetter b hb'
      have hba := htotal a b
      rw [ha, Bool.false_or] at hba
      refine ⟨hba, fun hab => ?_⟩
      rw [ha] at hab
      cases hab
    · exact hbw b hb' c hc

/-- **The first of a sorted list** may precede all, and comes first among those that may. -/
theorem head?_mergeSort {l : List α} {k : α} (h : (l.mergeSort le).head? = some k) :
    ∃ before after, l = before ++ k :: after ∧ (∀ b ∈ l, le k b = true) ∧
      ∀ b ∈ before, le b k = false := by
  induction l with
  | nil => simp at h
  | cons a l ih =>
    obtain ⟨worse, better, hsort, hrest, hbetter, hworse⟩ :=
      mergeSort_cons_split htrans htotal a l
    have hself : le a a = true := by simpa using htotal a a
    rw [hsort] at h
    cases better with
    | nil =>
      obtain rfl : a = k := Option.some.inj h
      refine ⟨[], l, rfl, ?_, List.forall_mem_nil _⟩
      rintro b (_ | ⟨_, hb⟩)
      · exact hself
      · rw [List.nil_append] at hrest
        exact hworse b (hrest ▸ List.mem_mergeSort.mpr hb)
    | cons c better =>
      obtain rfl : c = k := Option.some.inj h
      have hc : le a c = false := hbetter c List.mem_cons_self
      obtain ⟨before, after, rfl, hall, hbefore⟩ := ih (by rw [hrest]; rfl)
      refine ⟨a :: before, after, rfl, ?_, ?_⟩
      · rintro b (_ | ⟨_, hb⟩)
        · have htotal' := htotal a c
          rwa [hc, Bool.false_or] at htotal'
        · exact hall b hb
      · rintro b (_ | ⟨_, hb⟩)
        · exact hc
        · exact hbefore b hb

end

/-! ### Candidates -/

namespace Registry

theorem preferable_iff {a b : Kernel} : preferable a b = true ↔ b.isa.width < a.isa.width ∨
    a.isa.width = b.isa.width ∧ (a.preferred = true ∨ b.preferred = false) := by
  simp [preferable]

theorem preferable_trans (a b c : Kernel) (hab : preferable a b = true)
    (hbc : preferable b c = true) : preferable a c = true := by
  rw [preferable_iff] at *
  rcases hab with hab | ⟨hab, hpref⟩ <;> rcases hbc with hbc | ⟨hbc, hpref'⟩
  · exact .inl (by omega)
  · exact .inl (by omega)
  · exact .inl (by omega)
  · refine .inr ⟨by omega, ?_⟩
    rcases hpref with h | h
    · exact .inl h
    · rcases hpref' with h' | h'
      · rw [h] at h'
        cases h'
      · exact .inr h'

theorem preferable_total (a b : Kernel) : (preferable a b || preferable b a) = true := by
  rw [Bool.or_eq_true, preferable_iff, preferable_iff]
  rcases Nat.lt_trichotomy a.isa.width b.isa.width with h | h | h
  · exact .inr (.inl h)
  · cases hb : b.preferred with
    | false => exact .inl (.inr ⟨h, .inr rfl⟩)
    | true => exact .inr (.inr ⟨h.symm, .inl rfl⟩)
  · exact .inl (.inl h)

/-- **Fewer features only drop candidates**, and keep the order of the others. -/
theorem candidates_restrict (registry : Registry) (d : Direction) (caps : Capabilities)
    (disabled : List Feature) :
    registry.candidates d (caps.restrict disabled)
      = (registry.candidates d caps).filter (·.isSupported (caps.restrict disabled)) := by
  rw [candidates, candidates, ← filter_mergeSort preferable_trans preferable_total, admissible,
    admissible, List.filter_filter, List.filter_filter, List.filter_filter]
  congr 1
  refine List.filter_congr fun k _ => ?_
  cases hmasked : k.isSupported (caps.restrict disabled) with
  | true =>
    have hfull : k.isSupported caps = true := Capabilities.permits_of_restrict hmasked
    rw [hfull, Bool.and_true, Bool.and_true, Bool.true_and]
  | false => rw [Bool.and_false, Bool.false_and, Bool.false_and]

/-! ### The order of the candidates -/

/-- Of two entries of a registry, the one at `p` is served before the one at `q`: its registers
are wider, or as wide and it alone is preferred, or neither is the better one and it comes first
in the registry. -/
def Precedes (registry : Registry) (p q : Fin registry.kernels.length) : Prop :=
  (registry.kernels.get q).isa.width < (registry.kernels.get p).isa.width ∨
    (registry.kernels.get p).isa.width = (registry.kernels.get q).isa.width ∧
      ((registry.kernels.get p).preferred = true ∧ (registry.kernels.get q).preferred = false ∨
        (registry.kernels.get p).preferred = (registry.kernels.get q).preferred ∧ p < q)

/-- The positions of the entries that may serve a direction on a processor. -/
def positions (registry : Registry) (d : Direction) (caps : Capabilities) :
    List (Fin registry.kernels.length) :=
  (List.finRange registry.kernels.length).filter fun p =>
    (registry.kernels.get p).isSupported caps && (registry.kernels.get p).direction == d

/-- These positions, best first. -/
def order (registry : Registry) (d : Direction) (caps : Capabilities) :
    List (Fin registry.kernels.length) :=
  (registry.positions d caps).mergeSort fun p q =>
    preferable (registry.kernels.get p) (registry.kernels.get q)

section

variable (registry : Registry) (d : Direction) (caps : Capabilities)

theorem map_positions : (registry.positions d caps).map registry.kernels.get
    = (registry.admissible caps).filter (·.direction == d) := by
  have hall : (List.finRange registry.kernels.length).map registry.kernels.get = registry.kernels :=
    List.map_get_finRange registry.kernels
  conv_rhs => rw [admissible, ← hall, List.filter_map, List.filter_map, List.filter_filter]
  rw [positions]
  congr 2
  funext p
  exact Bool.and_comm _ _

theorem mem_positions_iff {p : Fin registry.kernels.length} : p ∈ registry.positions d caps ↔
    (registry.kernels.get p).direction = d ∧ (registry.kernels.get p).isSupported caps = true := by
  rw [positions, List.mem_filter, Bool.and_eq_true, beq_iff_eq,
    and_iff_right (List.mem_finRange p), and_comm]

theorem pairwise_lt_positions : (registry.positions d caps).Pairwise (· < ·) :=
  (List.pairwise_lt_finRange registry.kernels.length).filter _

theorem candidates_eq_map :
    registry.candidates d caps = (registry.order d caps).map registry.kernels.get := by
  rw [candidates, ← registry.map_positions, order,
    List.map_mergeSort (s := preferable) (f := registry.kernels.get) fun _ _ _ _ => rfl]

theorem mem_order_iff {p : Fin registry.kernels.length} : p ∈ registry.order d caps ↔
    (registry.kernels.get p).direction = d ∧ (registry.kernels.get p).isSupported caps = true := by
  rw [order, List.mem_mergeSort, mem_positions_iff]

theorem nodup_order : (registry.order d caps).Nodup :=
  (List.mergeSort_perm _ _).nodup_iff.mpr
    ((registry.pairwise_lt_positions d caps).imp fun h => ne_of_lt h)

theorem pairwise_order : (registry.order d caps).Pairwise registry.Precedes := by
  have hsorted := pairwise_mergeSort_stable
    (fun p q r => preferable_trans (registry.kernels.get p) (registry.kernels.get q)
      (registry.kernels.get r))
    (fun p q => preferable_total (registry.kernels.get p) (registry.kernels.get q))
    (registry.pairwise_lt_positions d caps)
  refine hsorted.imp fun {p q} hpq => ?_
  obtain ⟨hbetter, hsame⟩ := hpq
  rw [preferable_iff] at hbetter hsame
  rcases hbetter with hwide | ⟨hwidth, hpreferred⟩
  · exact .inl hwide
  · refine .inr ⟨hwidth, ?_⟩
    cases hp : (registry.kernels.get p).preferred <;>
      cases hq : (registry.kernels.get q).preferred
    · exact .inr ⟨rfl, hsame (.inr ⟨hwidth.symm, .inr hp⟩)⟩
    · rw [hp, hq] at hpreferred
      simp at hpreferred
    · exact .inl ⟨rfl, rfl⟩
    · exact .inr ⟨rfl, hsame (.inr ⟨hwidth.symm, .inl hq⟩)⟩

/-- **The candidates are the entries that may serve, in stable order of preference.**  Each entry
of the direction that the processor supports is there once, however often its kernel is in the
registry; what comes first has the wider registers, or as wide ones and is preferred, or was
first already.  Features that are masked out take candidates away and move none. -/
theorem candidates_stable :
    (∃ places : List (Fin registry.kernels.length),
      registry.candidates d caps = places.map registry.kernels.get ∧ places.Nodup ∧
      (∀ p, p ∈ places ↔ (registry.kernels.get p).direction = d ∧
        (registry.kernels.get p).isSupported caps = true) ∧
      places.Pairwise registry.Precedes) ∧
    (registry.candidates d caps).Perm
      (registry.kernels.filter fun k => k.direction == d && k.isSupported caps) ∧
    ∀ disabled, registry.candidates d (caps.restrict disabled)
      = (registry.candidates d caps).filter (·.isSupported (caps.restrict disabled)) := by
  refine ⟨⟨registry.order d caps, registry.candidates_eq_map d caps, registry.nodup_order d caps,
    fun p => registry.mem_order_iff d caps, registry.pairwise_order d caps⟩, ?_,
    registry.candidates_restrict d caps⟩
  rw [candidates, admissible, List.filter_filter]
  exact List.mergeSort_perm _ _

end

/-! ### The first candidate -/

/-- The kernels that may serve a direction, in the order of the registry. -/
def eligible (registry : Registry) (d : Direction) (caps : Capabilities) : List Kernel :=
  (registry.admissible caps).filter (·.direction == d)

/-- Those of the eligible kernels whose registers are the widest. -/
def widest (registry : Registry) (d : Direction) (caps : Capabilities) : List Kernel :=
  (registry.eligible d caps).filter fun k =>
    (registry.eligible d caps).all fun k' => k'.isa.width ≤ k.isa.width

/-- The first preferred one of the widest, or else the first one. -/
def best (registry : Registry) (d : Direction) (caps : Capabilities) : Option Kernel :=
  ((registry.widest d caps).find? (·.preferred)).or (registry.widest d caps).head?

variable {registry : Registry} {d : Direction} {caps : Capabilities} {k : Kernel}

/-- Whether no eligible kernel has wider registers. -/
theorem all_width_iff : ((registry.eligible d caps).all fun k' => k'.isa.width ≤ k.isa.width) = true
    ↔ ∀ k' ∈ registry.eligible d caps, k'.isa.width ≤ k.isa.width := by
  simp only [List.all_eq_true, decide_eq_true_eq]

/-- An entry that is as welcome as all others, and more so than those before it, is the best. -/
theorem best_of_split {before after : List Kernel}
    (hsplit : registry.eligible d caps = before ++ k :: after)
    (hall : ∀ b ∈ registry.eligible d caps, preferable k b = true)
    (hbefore : ∀ b ∈ before, preferable b k = false) : registry.best d caps = some k := by
  have hmem : k ∈ registry.eligible d caps := by
    rw [hsplit]
    exact List.mem_append_right _ List.mem_cons_self
  have hwide : ∀ b ∈ registry.eligible d caps, b.isa.width ≤ k.isa.width := by
    intro b hb
    rcases preferable_iff.mp (hall b hb) with h | ⟨h, -⟩
    · exact h.le
    · exact h.ge
  -- of the entries before it, none is of its width and as welcome
  have hfront : ∀ b ∈ before, k.isa.width ≤ b.isa.width →
      b.preferred = false ∧ k.preferred = true := by
    intro b hb hwidth
    have hb' : b ∈ registry.eligible d caps := by
      rw [hsplit]
      exact List.mem_append_left _ hb
    have hworse := mt preferable_iff.mpr (Bool.eq_false_iff.mp (hbefore b hb))
    have hsame : b.isa.width = k.isa.width := le_antisymm (hwide b hb') hwidth
    have hnot := not_and.mp (not_or.mp hworse).2 hsame
    exact ⟨Bool.eq_false_iff.mpr fun h => hnot (.inl h),
      Bool.eq_true_of_not_eq_false fun h => hnot (.inr h)⟩
  rw [best]
  cases hpreferred : k.preferred with
  | true =>
    have hfind : (registry.widest d caps).find? (·.preferred) = some k := by
      rw [widest, List.find?_filter, List.find?_eq_some_iff_append]
      refine ⟨decide_eq_true ⟨all_width_iff.mpr hwide, hpreferred⟩, before, after, hsplit, ?_⟩
      intro b hb
      rw [Bool.not_eq_true', decide_eq_false_iff_not]
      rintro ⟨hwidest, hb'⟩
      rw [(hfront b hb (all_width_iff.mp hwidest k hmem)).1] at hb'
      cases hb'
    rw [hfind, Option.some_or]
  | false =>
    have hnone : (registry.widest d caps).find? (·.preferred) = none := by
      refine List.find?_eq_none.mpr fun b hb => ?_
      obtain ⟨hb', hwidest⟩ := List.mem_filter.mp hb
      rcases preferable_iff.mp (hall b hb') with h | ⟨-, h | h⟩
      · exact absurd (all_width_iff.mp hwidest k hmem) (Nat.not_le.mpr h)
      · rw [hpreferred] at h
        cases h
      · rw [h]
        exact Bool.false_ne_true
    have hhead : (registry.widest d caps).head? = some k := by
      rw [widest, List.head?_filter, List.find?_eq_some_iff_append]
      refine ⟨all_width_iff.mpr hwide, before, after, hsplit, fun b hb => ?_⟩
      rw [Bool.not_eq_true', Bool.eq_false_iff]
      intro hwidest
      have hk := (hfront b hb (all_width_iff.mp hwidest k hmem)).2
      rw [hpreferred] at hk
      cases hk
    rw [hnone, Option.none_or, hhead]

/-- **The first candidate**, without sorting. -/
theorem candidates_head? (registry : Registry) (d : Direction) (caps : Capabilities) :
    (registry.candidates d caps).head? = registry.best d caps := by
  rcases hhead : (registry.candidates d caps).head? with _ | k
  · have hnone : registry.eligible d caps = [] := by
      have hsort : registry.candidates d caps = [] := List.head?_eq_none_iff.mp hhead
      refine List.eq_nil_iff_forall_not_mem.mpr fun k hk => ?_
      have hmem : k ∈ registry.candidates d caps := List.mem_mergeSort.mpr hk
      rw [hsort] at hmem
      cases hmem
    rw [best, widest, hnone]
    rfl
  · obtain ⟨before, after, hsplit, hall, hbefore⟩ :=
      head?_mergeSort preferable_trans preferable_total hhead
    exact (best_of_split hsplit hall hbefore).symm

end Registry

end Lanewise

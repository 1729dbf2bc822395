/-
Lanewise/Proofs/Selection.lean

Which kernels a dispatcher can hold.

There are four ways to make a dispatcher (`Construction`).  Whatever the registry, the
processor and the host, a kernel in the table of what is made

  * is one of the registry and of the direction that it serves,
  * is supported by the processor,
  * and has passed validation while the dispatcher was made,

(`Construction.sound_build`), and only supported kernels were called meanwhile, also
if nothing is made in the end (`Construction.moves_build`).  One step of the selection
keeps this of the table so far (`Chosen.select`), and the fold over the directions
keeps it by induction; pinning keeps it once more.
-/
import Lanewise.Dispatcher
import Lanewise.Proofs.Families
import Lanewise.Proofs.Validation

namespace Lanewise

/-! ### Construction -/

/-- The ways to make a dispatcher. -/
inductive Construction where
  | scalar
  | new (caps : Capabilities)
  | withRegistry (caps : Capabilities) (registry : Registry)
  | withKernel (caps : Capabilities) (name : String)

namespace Construction

def build : Construction → Session Dispatcher
  | scalar => pure Dispatcher.scalar
  | new caps => Dispatcher.new caps
  | withRegistry caps registry => Dispatcher.withRegistry caps registry
  | withKernel caps name => Dispatcher.withKernel caps name

def capabilities : Construction → Capabilities
  | scalar => .none
  | new caps | withRegistry caps _ | withKernel caps _ => caps

/-- The kernels that are chosen from. -/
def registry : Construction → Registry
  | scalar => ⟨[]⟩
  | withRegistry _ registry => registry
  | new _ | withKernel _ _ => .compiled

/-- The kernels that come from outside. -/
def supplied : Construction → List Kernel
  | withRegistry _ registry => registry.kernels
  | scalar | new _ | withKernel _ _ => []

end Construction

theorem Registry.mem_candidates {registry : Registry} {d : Direction} {caps : Capabilities}
    {k : Kernel} : k ∈ registry.candidates d caps ↔
      k ∈ registry.kernels ∧ caps.Permits k ∧ k.direction = d := by
  rw [Registry.candidates, List.mem_mergeSort, List.mem_filter, Registry.admissible,
    List.mem_filter, beq_iff_eq, and_assoc]
  rfl

/-! ### Passing validation -/

section

variable {caps : Capabilities} {fixture : ReferenceSet} {registry : Registry}
  {host host' host'' : Host} {k : Kernel}

/-- At some time from one host to another, the kernel passed validation. -/
def Passed (caps : Capabilities) (fixture : ReferenceSet) (k : Kernel) (host host' : Host) :
    Prop :=
  ∃ before after, host.Grows caps.Permits before ∧
    validateKernel k caps fixture before = .ok () after ∧ after.Grows caps.Permits host'

theorem Passed.later (h : Passed caps fixture k host host')
    (hlater : host'.Grows caps.Permits host'') : Passed caps fixture k host host'' := by
  obtain ⟨before, after, hbefore, hvalid, hafter⟩ := h
  exact ⟨before, after, hbefore, hvalid, trans_of _ hafter hlater⟩

theorem Passed.earlier (hearlier : host.Grows caps.Permits host')
    (h : Passed caps fixture k host' host'') : Passed caps fixture k host host'' := by
  obtain ⟨before, after, hbefore, hvalid, hafter⟩ := h
  exact ⟨before, after, trans_of _ hearlier hbefore, hvalid, hafter⟩

/-- From one host to another, reference data were made, and the kernel passed on them. -/
def Validated (caps : Capabilities) (k : Kernel) (host host' : Host) : Prop :=
  ∃ fixture before after, host.Grows caps.Permits before ∧
    ReferenceSet.make before = .ok fixture after ∧ Passed caps fixture k after host'

theorem Validated.later (h : Validated caps k host host')
    (hlater : host'.Grows caps.Permits host'') : Validated caps k host host'' := by
  obtain ⟨fixture, before, after, hbefore, hmake, hpassed⟩ := h
  exact ⟨fixture, before, after, hbefore, hmake, hpassed.later hlater⟩

theorem Validated.earlier (hearlier : host.Grows caps.Permits host')
    (h : Validated caps k host' host'') : Validated caps k host host'' := by
  obtain ⟨fixture, before, after, hbefore, hmake, hpassed⟩ := h
  exact ⟨fixture, before, after, trans_of _ hearlier hbefore, hmake, hpassed⟩

/-! ### The first kernel that passes -/

namespace Dispatcher

theorem moves_firstValid (ks : List Kernel) :
    Moves (Host.Grows caps.Permits) (firstValid caps fixture ks) := by
  induction ks with
  | nil => exact Moves.pure none
  | cons k rest ih =>
    refine Moves.bind (Session.moves_attempt (moves_validateKernel k caps fixture)) fun r => ?_
    rcases r with cause | _
    · exact Moves.bind (Session.moves_log _) fun _ => ih
    · exact Moves.pure (some k)

/-- What is returned is one of the kernels, and passed. -/
theorem firstValid_some {ks : List Kernel}
    (h : firstValid caps fixture ks host = .ok (some k) host') :
    k ∈ ks ∧ Passed caps fixture k host host' := by
  induction ks generalizing host with
  | nil => cases h
  | cons k' rest ih =>
    obtain ⟨r, host₁, hattempt, hrest⟩ := ok_of_run_bind h
    have hgrows : host.Grows caps.Permits host₁ :=
      (Session.moves_attempt (moves_validateKernel k' caps fixture)).of_ok hattempt
    rcases r with cause | _
    · -- turned down: the one that passed is among the rest
      obtain ⟨_, host₂, hlog, hrest⟩ := ok_of_run_bind hrest
      obtain ⟨hmem, hpassed⟩ := ih hrest
      refine ⟨List.mem_cons_of_mem k' hmem, Passed.earlier hgrows (Passed.earlier ?_ hpassed)⟩
      exact (Session.moves_log _).of_ok hlog
    · cases hrest
      exact ⟨List.mem_cons_self, host, _, refl_of _ host, Session.attempt_eq_ok hattempt,
        refl_of _ _⟩

/-! ### The selection -/

theorem moves_select (table : Direction → Option Kernel) (d : Direction) :
    Moves (Host.Grows caps.Permits) (select registry caps fixture table d) :=
  Moves.bind (moves_firstValid _) fun _ => Moves.bind (Session.moves_log _) fun _ => Moves.pure _

/-- Every kernel of the table is one that may serve its direction, and passed validation
from one host to another. -/
def Chosen (registry : Registry) (caps : Capabilities) (fixture : ReferenceSet)
    (table : Direction → Option Kernel) (host host' : Host) : Prop :=
  ∀ d k, table d = some k → k ∈ registry.candidates d caps ∧ Passed caps fixture k host host'

/-- One step of the selection. -/
theorem Chosen.select {table table' : Direction → Option Kernel} {d : Direction}
    (h : Chosen registry caps fixture table host host')
    (hhosts : host.Grows caps.Permits host')
    (hrun : Dispatcher.select registry caps fixture table d host' = .ok table' host'') :
    Chosen registry caps fixture table' host host'' := by
  have hlater : host'.Grows caps.Permits host'' := (moves_select table d).of_ok hrun
  obtain ⟨kernel?, host₁, hfirst, hrest⟩ := ok_of_run_bind hrun
  obtain ⟨_, host₂, hlog, hassign⟩ := ok_of_run_bind hrest
  cases hassign
  intro d' k hk
  rw [assign] at hk
  -- one place of the table is new, and the others have lived to a later host
  split_ifs at hk with hd
  · subst hd hk
    obtain ⟨hmem, hpassed⟩ := firstValid_some hfirst
    exact ⟨hmem, (Passed.earlier hhosts hpassed).later ((Session.moves_log _).of_ok hlog)⟩
  · obtain ⟨hmem, hpassed⟩ := h d' k hk
    exact ⟨hmem, hpassed.later hlater⟩

/-- The selection over any directions. -/
theorem Chosen.foldlM {ds : List Direction} {table table' : Direction → Option Kernel}
    (h : Chosen registry caps fixture table host host')
    (hhosts : host.Grows caps.Permits host')
    (hrun : ds.foldlM (Dispatcher.select registry caps fixture) table host'
      = .ok table' host'') :
    Chosen registry caps fixture table' host host'' := by
  induction ds generalizing table host' with
  | nil =>
    cases hrun
    exact h
  | cons d ds ih =>
    rw [List.foldlM_cons] at hrun
    obtain ⟨table₁, host₁, hselect, hrest⟩ := ok_of_run_bind hrun
    have hlater : host'.Grows caps.Permits host₁ := (moves_select table d).of_ok hselect
    exact ih (h.select hhosts hselect) (trans_of _ hhosts hlater) hrest

/-! ### Constructors -/

theorem moves_withRegistry (registry : Registry) :
    Moves (Host.Grows caps.Permits) (withRegistry caps registry) := by
  refine Moves.bind (Session.moves_log _) fun _ => ?_
  refine Moves.bind (Session.moves_attempt ReferenceSet.moves_make) fun r => ?_
  rcases r with cause | fixture
  · exact Moves.bind (Session.moves_log _) fun _ => Moves.pure _
  · exact Moves.bind (Moves.foldlM (fun table d _ => moves_select table d) _) fun _ => Moves.pure _

/-- What is known of a made dispatcher. -/
structure Sound (registry : Registry) (caps : Capabilities) (host : Host)
    (dispatcher : Dispatcher) (host' : Host) : Prop where
  capabilities : dispatcher.capabilities = caps
  kernel : ∀ d k, dispatcher.kernel d = some k →
    k ∈ registry.candidates d caps ∧ Validated caps k host host'

theorem sound_withRegistry {dispatcher : Dispatcher}
    (h : withRegistry caps registry host = .ok dispatcher host') :
    Sound registry caps host dispatcher host' := by
  obtain ⟨_, host₁, hlog, h⟩ := ok_of_run_bind h
  obtain ⟨r, host₂, hattempt, h⟩ := ok_of_run_bind h
  rcases r with cause | fixture
  · obtain ⟨_, host₃, -, h⟩ := ok_of_run_bind h
    cases h
    exact ⟨rfl, fun d k hk => nomatch hk⟩
  · obtain ⟨table, host₃, hfold, h⟩ := ok_of_run_bind h
    cases h
    have hnone : Chosen registry caps fixture (fun _ => none) host₂ host₂ :=
      fun d k hk => nomatch hk
    have hchosen := hnone.foldlM (refl_of _ host₂) hfold
    refine ⟨rfl, fun d k hk => ?_⟩
    obtain ⟨hmem, hpassed⟩ := hchosen d k hk
    exact ⟨hmem, fixture, host₁, host₂, (Session.moves_log _).of_ok hlog,
      Session.attempt_eq_ok hattempt, hpassed⟩

theorem moves_withKernel (name : String) :
    Moves (Host.Grows caps.Permits) (withKernel caps name) := by
  rw [withKernel]
  rcases Registry.compiled.find? name with _ | k
  · exact Moves.throw _
  · refine Moves.bind ReferenceSet.moves_make fun fixture => ?_
    refine Moves.bind (moves_validateKernel k caps fixture) fun _ => ?_
    refine Moves.bind (moves_withRegistry Registry.compiled) fun dispatcher => ?_
    exact Moves.bind (Session.moves_log _) fun _ => Moves.pure _

/-- Pinning overwrites one place, with a kernel that has passed too. -/
theorem sound_withKernel {name : String} {dispatcher : Dispatcher}
    (h : withKernel caps name host = .ok dispatcher host') :
    Sound .compiled caps host dispatcher host' := by
  rw [withKernel] at h
  rcases hfind : Registry.compiled.find? name with _ | k
  · rw [hfind] at h
    cases h
  · rw [hfind] at h
    obtain ⟨fixture, host₁, hmake, h⟩ := ok_of_run_bind h
    obtain ⟨_, host₂, hvalid, h⟩ := ok_of_run_bind h
    obtain ⟨chosen, host₃, hnew, h⟩ := ok_of_run_bind h
    obtain ⟨_, host₄, hlog, h⟩ := ok_of_run_bind h
    cases h
    have hsound := sound_withRegistry hnew
    have hbefore : host.Grows caps.Permits host₂ :=
      trans_of _ (ReferenceSet.moves_make.of_ok hmake)
        ((moves_validateKernel k caps fixture).of_ok hvalid)
    have hnewer : host₂.Grows caps.Permits host₃ := (moves_withRegistry _).of_ok hnew
    have hlogged : host₃.Grows caps.Permits host' := (Session.moves_log _).of_ok hlog
    refine ⟨hsound.capabilities, fun d k' hk' => ?_⟩
    -- the pinned kernel passed before the selection, the others during it
    simp only [assign] at hk'
    split_ifs at hk' with hd
    · cases hk'
      refine ⟨Registry.mem_candidates.mpr ⟨List.mem_of_find?_eq_some hfind,
        permits_of_validateKernel hvalid, hd.symm⟩, ?_⟩
      exact ⟨fixture, host, host₁, refl_of _ host, hmake, host₁, host₂, refl_of _ host₁, hvalid,
        trans_of _ hnewer hlogged⟩
    · obtain ⟨hmem, hvalidated⟩ := hsound.kernel d k' hk'
      exact ⟨hmem, (hvalidated.earlier hbefore).later hlogged⟩

end Dispatcher

end

/-! ### All constructions -/

namespace Construction

/-- Construction calls supported kernels only, whether or not anything is made. -/
theorem moves_build (c : Construction) :
    Moves (Host.Grows c.capabilities.Permits) c.build := by
  rcases c with _ | caps | ⟨caps, registry⟩ | ⟨caps, name⟩
  · exact Moves.pure _
  · exact Dispatcher.moves_withRegistry _
  · exact Dispatcher.moves_withRegistry registry
  · exact Dispatcher.moves_withKernel name

/-- **The kernels of a dispatcher** may serve their directions, and passed validation. -/
theorem sound_build {c : Construction} {host host' : Host} {dispatcher : Dispatcher}
    (h : c.build host = .ok dispatcher host') :
    Dispatcher.Sound c.registry c.capabilities host dispatcher host' := by
  rcases c with _ | caps | ⟨caps, registry⟩ | ⟨caps, name⟩
  · cases h
    exact ⟨rfl, fun d k hk => nomatch hk⟩
  · exact Dispatcher.sound_withRegistry h
  · exact Dispatcher.sound_withRegistry h
  · exact Dispatcher.sound_withKernel h

/-- If the kernels from outside honour the prefix, then so do all that serve. -/
theorem honoursPrefix_of_build {c : Construction} {host host' : Host} {dispatcher : Dispatcher}
    (h : c.build host = .ok dispatcher host') (hsupplied : ∀ k ∈ c.supplied, k.HonoursPrefix)
    {d : Direction} {k : Kernel} (hk : dispatcher.kernel d = some k) :
    k.direction = d ∧ k.HonoursPrefix := by
  obtain ⟨hcandidate, -⟩ := (sound_build h).kernel d k hk
  obtain ⟨hmem, -, hd⟩ := Registry.mem_candidates.mp hcandidate
  refine ⟨hd, ?_⟩
  rcases c with _ | caps | ⟨caps, registry⟩ | ⟨caps, name⟩
  · cases hmem
  · exact Registry.compiled_honoursPrefix hmem
  · exact hsupplied k hmem
  · exact Registry.compiled_honoursPrefix hmem

end Construction

end Lanewise

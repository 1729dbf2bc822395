/-
Lanewise/Proofs/Runs.lean

Runs of computations that keep their state when they stop.

A run is taken apart at its binds (`run_bind_of_ok`, `run_bind_of_error`).  What holds
of every run, however it ends, is stated as a relation between the first and the last
state: `Moves R act`.  A relation that is reflexive and transitive passes through
`bind`, `forM` and `foldlM`, so it is enough to prove it of the primitives.
-/
import Mathlib.Order.Defs.Unbundled
import Mathlib.Tactic.SplitIfs

namespace Lanewise

variable {ε σ α β : Type}

/-! ### Taking runs apart -/

theorem run_bind_of_ok {x : EStateM ε σ α} {f : α → EStateM ε σ β} {s s' : σ} {a : α}
    (h : x s = .ok a s') : (x >>= f) s = f a s' := by
  show EStateM.bind x f s = _
  rw [EStateM.bind, h]

theorem run_bind_of_error {x : EStateM ε σ α} {f : α → EStateM ε σ β} {s s' : σ} {e : ε}
    (h : x s = .error e s') : (x >>= f) s = .error e s' := by
  show EStateM.bind x f s = _
  rw [EStateM.bind, h]

/-- What a run with a result was made of. -/
theorem ok_of_run_bind {x : EStateM ε σ α} {f : α → EStateM ε σ β} {s s'' : σ} {b : β}
    (h : (x >>= f) s = .ok b s'') : ∃ a s', x s = .ok a s' ∧ f a s' = .ok b s'' := by
  rcases hx : x s with ⟨a, s'⟩ | ⟨e, s'⟩
  · exact ⟨a, s', rfl, (run_bind_of_ok hx).symm.trans h⟩
  · rw [run_bind_of_error hx] at h
    cases h

/-- A fold ends without a result exactly where one of its steps does, the first one. -/
theorem foldlM_eq_error_iff {f : β → α → EStateM ε σ β} {l : List α} {b : β} {s s' : σ} {e : ε} :
    l.foldlM f b s = .error e s' ↔ ∃ before a after b₁ s₁, l = before ++ a :: after ∧
      before.foldlM f b s = .ok b₁ s₁ ∧ f b₁ a s₁ = .error e s' := by
  induction l generalizing b s with
  | nil =>
    constructor
    · intro h
      cases h
    · rintro ⟨before, a, after, b₁, s₁, hl, -⟩
      cases before <;> cases hl
  | cons a l ih =>
    rw [List.foldlM_cons]
    rcases hstep : f b a s with ⟨b₁, s₁⟩ | ⟨e₁, s₁⟩
    · rw [run_bind_of_ok hstep, ih]
      constructor
      · rintro ⟨before, a', after, b₂, s₂, rfl, hbefore, ha'⟩
        refine ⟨a :: before, a', after, b₂, s₂, rfl, ?_, ha'⟩
        rw [List.foldlM_cons, run_bind_of_ok hstep, hbefore]
      · rintro ⟨before, a', after, b₂, s₂, hl, hbefore, ha'⟩
        rcases before with _ | ⟨a₁, before⟩
        · cases hl
          cases hbefore
          rw [hstep] at ha'
          cases ha'
        · cases hl
          rw [List.foldlM_cons, run_bind_of_ok hstep] at hbefore
          exact ⟨before, a', after, b₂, s₂, rfl, hbefore, ha'⟩
    · rw [run_bind_of_error hstep]
      constructor
      · intro h
        cases h
        exact ⟨[], a, l, b, s, rfl, rfl, hstep⟩
      · rintro ⟨before, a', after, b₂, s₂, hl, hbefore, ha'⟩
        rcases before with _ | ⟨a₁, before⟩
        · cases hl
          cases hbefore
          exact hstep.symm.trans ha'
        · cases hl
          rw [List.foldlM_cons, run_bind_of_error hstep] at hbefore
          cases hbefore

/-! ### From the first state to the last -/

/-- The state in which a run ends, with a result or without. -/
def finalState : EStateM.Result ε σ α → σ
  | .ok _ s => s
  | .error _ s => s

/-- Wherever a run starts, `R` holds from there to where it ends. -/
def Moves (R : σ → σ → Prop) (act : EStateM ε σ α) : Prop := ∀ s, R s (finalState (act s))

namespace Moves

variable {R : σ → σ → Prop}

theorem of_ok {act : EStateM ε σ α} (h : Moves R act) {s s' : σ} {a : α}
    (hrun : act s = .ok a s') : R s s' := by
  have hs := h s
  rwa [hrun] at hs

theorem ite {c : Prop} [Decidable c] {x y : EStateM ε σ α} (hx : Moves R x) (hy : Moves R y) :
    Moves R (if c then x else y) := by
  split_ifs
  · exact hx
  · exact hy

variable [IsPreorder σ R]

theorem pure (a : α) : Moves R (Pure.pure a : EStateM ε σ α) := fun s => refl_of R s

theorem throw (e : ε) : Moves R (MonadExceptOf.throw e : EStateM ε σ α) := fun s => refl_of R s

theorem get : Moves R (MonadStateOf.get : EStateM ε σ σ) := fun s => refl_of R s

theorem bind {x : EStateM ε σ α} {f : α → EStateM ε σ β} (hx : Moves R x)
    (hf : ∀ a, Moves R (f a)) : Moves R (x >>= f) := by
  intro s
  have hs := hx s
  rcases e : x s with ⟨a, s'⟩ | ⟨e', s'⟩
  · rw [e] at hs
    rw [run_bind_of_ok e]
    exact trans_of R hs (hf a s')
  · rw [e] at hs
    rw [run_bind_of_error e]
    exact hs

theorem throwIf {c : Prop} [Decidable c] (e : ε) {act : EStateM ε σ α} (h : Moves R act) :
    Moves R (if c then MonadExcept.throw e >>= fun _ : PUnit => act else act) :=
  ite (bind (throw e) fun _ => h) h

theorem forM {f : α → EStateM ε σ PUnit} {l : List α} (hf : ∀ a ∈ l, Moves R (f a)) :
    Moves R (l.forM f) := by
  induction l with
  | nil => exact pure _
  | cons a l ih =>
    refine bind (hf a List.mem_cons_self) fun _ => ?_
    exact ih fun b hb => hf b (List.mem_cons_of_mem a hb)

theorem foldlM {f : β → α → EStateM ε σ β} {l : List α} (hf : ∀ b, ∀ a ∈ l, Moves R (f b a))
    (b : β) : Moves R (l.foldlM f b) := by
  induction l generalizing b with
  | nil => exact pure _
  | cons a l ih =>
    rw [List.foldlM_cons]
    refine bind (hf b a List.mem_cons_self) fun b' => ?_
    exact ih (fun b'' a' ha' => hf b'' a' (List.mem_cons_of_mem a ha')) b'

end Moves

end Lanewise

import Mathlib.Data.List.Basic

/-!
# Invariants of computations with a state and exceptions

`Keeps I x`: a computation that starts in a state with `I` ends in one, whether it returns or throws.  One rule for
each way of putting computations together; `Keeps.get_bind` is the one that remembers the state that was read.
`Returns x s Q`: the computation does not throw when it starts in `s`, and what it returns has `Q`, with the state in
which it ends.
-/

namespace Zappy.Stateful

universe u

variable {ε σ α β : Type u} {I : σ → Prop}

/-- The state in which a computation ends. -/
def finalState (x : EStateM ε σ α) (s : σ) : σ :=
  match x.run s with
  | .ok _ t => t
  | .error _ t => t

/-- `x` keeps `I`. -/
def Keeps (I : σ → Prop) (x : EStateM ε σ α) : Prop := ∀ s, I s → I (finalState x s)

theorem finalState_bind_ok {x : EStateM ε σ α} {f : α → EStateM ε σ β} {s t : σ} {a : α} (h : x.run s = .ok a t) :
    finalState (x >>= f) s = finalState (f a) t := by
  unfold finalState
  rw [EStateM.run_bind, h]

theorem finalState_bind_error {x : EStateM ε σ α} {f : α → EStateM ε σ β} {s t : σ} {e : ε}
    (h : x.run s = .error e t) : finalState (x >>= f) s = t := by
  unfold finalState
  rw [EStateM.run_bind, h]

@[simp] theorem finalState_pure (a : α) (s : σ) : finalState (pure a : EStateM ε σ α) s = s := rfl

@[simp] theorem finalState_modify_bind (g : σ → σ) (f : PUnit → EStateM ε σ β) (s : σ) :
    finalState (modify g >>= f) s = finalState (f ⟨⟩) (g s) := rfl

@[simp] theorem finalState_get_bind (f : σ → EStateM ε σ β) (s : σ) :
    finalState (get >>= f) s = finalState (f s) s := rfl

theorem Keeps.pure (a : α) : Keeps I (pure a : EStateM ε σ α) := fun _ h => h

theorem Keeps.throw (e : ε) : Keeps I (throw e : EStateM ε σ α) := fun _ h => h

theorem Keeps.modify {g : σ → σ} (hg : ∀ s, I s → I (g s)) : Keeps I (modify g : EStateM ε σ PUnit) :=
  fun s h => hg s h

/-- A computation that keeps `I`, and then one that leads from `I` to `J`. -/
theorem Keeps.bind_to {J : σ → Prop} {x : EStateM ε σ α} {f : α → EStateM ε σ β} {s : σ} (h : I s) (hx : Keeps I x)
    (hIJ : ∀ s, I s → J s) (hf : ∀ a s, I s → J (finalState (f a) s)) : J (finalState (x >>= f) s) := by
  have hend := hx s h
  cases hrun : x.run s with
  | ok a t =>
    rw [finalState_bind_ok hrun]
    refine hf a t ?_
    rwa [finalState, hrun] at hend
  | error e t =>
    rw [finalState_bind_error hrun]
    refine hIJ t ?_
    rwa [finalState, hrun] at hend

theorem Keeps.bind {x : EStateM ε σ α} {f : α → EStateM ε σ β} (hx : Keeps I x) (hf : ∀ a, Keeps I (f a)) :
    Keeps I (x >>= f) := fun _ h => Keeps.bind_to h hx (fun _ h => h) hf

/-- What holds after the first computation and is kept by the rest. -/
theorem Keeps.after {x : EStateM ε σ α} {f : α → EStateM ε σ β} {s : σ} (hx : I (finalState x s))
    (hf : ∀ a, Keeps I (f a)) : I (finalState (x >>= f) s) := by
  cases hrun : x.run s with
  | ok a t =>
    rw [finalState_bind_ok hrun]
    refine hf a t ?_
    rwa [finalState, hrun] at hx
  | error e t =>
    rw [finalState_bind_error hrun]
    rwa [finalState, hrun] at hx

theorem Keeps.state : Keeps I (get : EStateM ε σ σ) := fun _ h => h

theorem Keeps.get_bind {f : σ → EStateM ε σ β} (hf : ∀ s, I s → I (finalState (f s) s)) : Keeps I (get >>= f) := hf

theorem Keeps.ite {p : Prop} [Decidable p] {x y : EStateM ε σ α} (hx : p → Keeps I x) (hy : ¬ p → Keeps I y) :
    Keeps I (if p then x else y) := by
  split
  · next h => exact hx h
  · next h => exact hy h

theorem Keeps.forM {l : List α} {f : α → EStateM ε σ PUnit} (hf : ∀ a ∈ l, Keeps I (f a)) : Keeps I (l.forM f) := by
  induction l with
  | nil => exact .pure _
  | cons a l ih =>
    refine .bind (hf a List.mem_cons_self) ?_
    intro _
    exact ih fun b hb => hf b (List.mem_cons_of_mem _ hb)

/-- `x` leaves what `f` reads alone. -/
def Leaves {τ : Type*} (f : σ → τ) (x : EStateM ε σ α) : Prop := ∀ b, Keeps (fun s => f s = b) x

theorem Leaves.eq {τ : Type*} {f : σ → τ} {x : EStateM ε σ α} (h : Leaves f x) (s : σ) :
    f (finalState x s) = f s := h (f s) s rfl

/-- What `x` leaves alone, all that is computed from it is left alone. -/
theorem Leaves.comp {τ τ' : Type*} {f : σ → τ} {x : EStateM ε σ α} (h : Leaves f x) (g : τ → τ') :
    Leaves (fun s => g (f s)) x := by
  intro b s hb
  exact (congrArg g (h.eq s)).trans hb

/-! ### Computations that return -/

/-- From the state `s`, `x` returns a value with `Q`. -/
def Returns (x : EStateM ε σ α) (s : σ) (Q : α → σ → Prop) : Prop := ∃ a t, x.run s = .ok a t ∧ Q a t

section Returns

variable {Q R : α → σ → Prop} {P : β → σ → Prop} {x : EStateM ε σ α} {f : α → EStateM ε σ β} {s : σ}

theorem Returns.pure {a : α} (h : Q a s) : Returns (pure a : EStateM ε σ α) s Q := ⟨a, s, rfl, h⟩

theorem Returns.modify_bind {g : σ → σ} {f : PUnit → EStateM ε σ β} (h : Returns (f ⟨⟩) (g s) P) :
    Returns (modify g >>= f) s P := h

theorem Returns.modify {Q : PUnit → σ → Prop} {g : σ → σ} (h : Q ⟨⟩ (g s)) :
    Returns (modify g : EStateM ε σ PUnit) s Q := ⟨⟨⟩, g s, rfl, h⟩

theorem Returns.mono (hx : Returns x s Q) (h : ∀ a t, Q a t → R a t) : Returns x s R := by
  obtain ⟨a, t, hrun, hQ⟩ := hx
  exact ⟨a, t, hrun, h a t hQ⟩

theorem Returns.bind (hx : Returns x s Q) (hf : ∀ a t, Q a t → Returns (f a) t P) : Returns (x >>= f) s P := by
  obtain ⟨a, t, hrun, hQ⟩ := hx
  obtain ⟨b, u, hrun', hP⟩ := hf a t hQ
  exact ⟨b, u, by rw [EStateM.run_bind, hrun, ← hrun'], hP⟩

theorem Returns.get_bind {f : σ → EStateM ε σ β} (h : Returns (f s) s P) : Returns (get >>= f) s P := h

theorem Returns.ite {p : Prop} [Decidable p] {y : EStateM ε σ α} (hx : p → Returns x s Q)
    (hy : ¬ p → Returns y s Q) : Returns (if p then x else y) s Q := by
  split
  · next h => exact hx h
  · next h => exact hy h

/-- A loop whose turns return and keep `I`. -/
theorem Returns.forM {l : List α} {f : α → EStateM ε σ PUnit} (h : I s)
    (hf : ∀ a ∈ l, ∀ s, I s → Returns (f a) s fun _ => I) : Returns (l.forM f) s fun _ => I := by
  induction l generalizing s with
  | nil => exact .pure h
  | cons a l ih =>
    refine .bind (hf a List.mem_cons_self s h) ?_
    intro _ t ht
    exact ih ht fun b hb => hf b (List.mem_cons_of_mem _ hb)

/-- The state in which `x` ends is the one in which it returns. -/
theorem Returns.finalState (hx : Returns x s Q) : ∃ a, x.run s = .ok a (finalState x s) ∧ Q a (finalState x s) := by
  obtain ⟨a, t, hrun, hQ⟩ := hx
  have ht : Stateful.finalState x s = t := by rw [Stateful.finalState, hrun]
  exact ⟨a, by rw [hrun, ht], ht ▸ hQ⟩

end Returns

end Zappy.Stateful

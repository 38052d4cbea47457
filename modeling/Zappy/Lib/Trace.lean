import Zappy.Lib.Run

/-!
# Traces of a labelled transition relation

A labelled relation says which states a label may lead to.  A partial step function refines it under an abstraction
of its states and a label for each of its steps: then every run of the function is a trace of the relation, along
the labels of its steps.
-/

namespace Zappy.Run

variable {τ L σ α : Type*} {R : L → τ → τ → Prop}

/-- The states that a list of labels may lead to. -/
inductive Trace (R : L → τ → τ → Prop) : τ → List L → τ → Prop
  | nil (t : τ) : Trace R t [] t
  | snoc {t t₁ t₂ : τ} {ls : List L} {l : L} (h : Trace R t ls t₁) (hl : R l t₁ t₂) : Trace R t (ls ++ [l]) t₂

namespace Trace

variable {t t₁ t₂ : τ} {ls ms : List L} {l : L}

theorem single (h : R l t t₁) : Trace R t [l] t₁ := (Trace.nil t).snoc h

theorem append (h : Trace R t ls t₁) (h' : Trace R t₁ ms t₂) : Trace R t (ls ++ ms) t₂ := by
  induction h' with
  | nil => rwa [List.append_nil]
  | snoc _ hl ih =>
    rw [← List.append_assoc]
    exact ih.snoc hl

/-- What every labelled step keeps, a trace keeps. -/
theorem invariant {I : τ → Prop} (hI : ∀ l t t', R l t t' → I t → I t') (h : Trace R t ls t₁) (ht : I t) : I t₁ := by
  induction h with
  | nil => exact ht
  | snoc _ hl ih => exact hI _ _ _ hl ih

end Trace

/-- A step function refines a labelled relation, one trace for each step. -/
theorem Guarded.trace {step : σ → α → Option σ} {G : σ → α → Prop} {I : σ → Prop} {abs : σ → τ}
    {labels : σ → α → List L} (hstep : ∀ s a s', step s a = some s' → G s a → I s → I s')
    (htrace : ∀ s a s', step s a = some s' → G s a → I s → Trace R (abs s) (labels s a) (abs s')) {s s' : σ}
    {as : List α} (hg : Guarded step G s as) (h : run step s as = some s') (hI : I s) :
    Trace R (abs s) (Run.outputs step labels s as) (abs s') := by
  have hmeans : I s' ∧ Trace R (abs s) ([] ++ Run.outputs step labels s as) (abs s') :=
    hg.outputs (I := fun ls s' => I s' ∧ Trace R (abs s) ls (abs s'))
      (fun _ s₁ a s₂ hs hG hs₁ => ⟨hstep s₁ a s₂ hs hG hs₁.1, hs₁.2.append (htrace s₁ a s₂ hs hG hs₁.1)⟩) h
      ⟨hI, .nil _⟩
  exact hmeans.2

end Zappy.Run

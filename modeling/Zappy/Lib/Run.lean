import Mathlib.Algebra.Group.Defs
import Mathlib.Logic.Relation

/-!
# Runs of a partial step function

A system is a function `step : σ → α → Option σ`: the state after an action, or `none` when the action has no
successor.  A run is a list of actions.  `AllSteps` says that every step of a run satisfies a predicate on the
state before, the action and the state after; `Guarded` says it of the state before and the action only, which is
how the assumptions of a run are stated.
-/

namespace Zappy.Run

variable {σ α : Type*} {step : σ → α → Option σ}

/-- The state after a list of actions. -/
def run (step : σ → α → Option σ) : σ → List α → Option σ
  | s, [] => some s
  | s, a :: as => (step s a).bind fun s' => run step s' as

/-- Every step of the run from `s` along `as` satisfies `Q`. -/
def AllSteps (step : σ → α → Option σ) (Q : σ → α → σ → Prop) : σ → List α → Prop
  | _, [] => True
  | s, a :: as => ∀ s', step s a = some s' → Q s a s' ∧ AllSteps step Q s' as

/-- Every step of the run from `s` along `as` is taken in a state and with an action that satisfy `G`. -/
def Guarded (step : σ → α → Option σ) (G : σ → α → Prop) (s : σ) (as : List α) : Prop :=
  AllSteps step (fun s a _ => G s a) s as

theorem run_cons {s s₁ : σ} {a : α} {as : List α} (h : step s a = some s₁) :
    run step s (a :: as) = run step s₁ as := by
  simp [run, h]

theorem run_append (s : σ) (as bs : List α) :
    run step s (as ++ bs) = (run step s as).bind fun s' => run step s' bs := by
  induction as generalizing s with
  | nil => rfl
  | cons a as ih =>
    simp only [List.cons_append, run]
    cases step s a with
    | none => rfl
    | some s' => exact ih s'

/-- What every turn of a loop over a list keeps, the loop keeps. -/
theorem foldlM_invariant {f : σ → α → Option σ} {I : σ → Prop} {l : List α}
    (hf : ∀ s, ∀ a ∈ l, ∀ s', f s a = some s' → I s → I s') {s s' : σ} (h : l.foldlM f s = some s') (hI : I s) :
    I s' := by
  induction l generalizing s with
  | nil => cases h; exact hI
  | cons a l ih =>
    simp only [List.foldlM_cons, Option.bind_eq_bind, Option.bind_eq_some_iff] at h
    obtain ⟨s₁, h₁, h₂⟩ := h
    exact ih (fun s b hb => hf s b (List.mem_cons_of_mem _ hb)) h₂ (hf s a List.mem_cons_self s₁ h₁ hI)

theorem AllSteps.of_forall {Q : σ → α → σ → Prop} (hQ : ∀ s a s', step s a = some s' → Q s a s') {s : σ}
    {as : List α} : AllSteps step Q s as := by
  induction as generalizing s with
  | nil => trivial
  | cons a as ih => exact fun s' hs => ⟨hQ s a s' hs, ih⟩

theorem AllSteps.mono {Q R : σ → α → σ → Prop} (hQR : ∀ s a s', step s a = some s' → Q s a s' → R s a s')
    {s : σ} {as : List α} (h : AllSteps step Q s as) : AllSteps step R s as := by
  induction as generalizing s with
  | nil => trivial
  | cons a as ih =>
    intro s' hs
    obtain ⟨hq, hrest⟩ := h s' hs
    exact ⟨hQR s a s' hs hq, ih hrest⟩

/-- A property of every state that a run reaches holds at its end. -/
theorem AllSteps.at_end {P : σ → Prop} {s s' : σ} {as : List α} (h : AllSteps step (fun _ _ t => P t) s as)
    (hrun : run step s as = some s') (hP : P s) : P s' := by
  induction as generalizing s with
  | nil => cases hrun; exact hP
  | cons a as ih =>
    simp only [run, Option.bind_eq_some_iff] at hrun
    obtain ⟨s₁, hs₁, hrest⟩ := hrun
    obtain ⟨hs, has⟩ := h s₁ hs₁
    exact ih has hrest hs

/-- A step in the middle of a run. -/
theorem AllSteps.at_step {Q : σ → α → σ → Prop} {s s₁ s₂ : σ} {as bs : List α} {a : α}
    (h : AllSteps step Q s (as ++ a :: bs)) (hrun : run step s as = some s₁) (hstep : step s₁ a = some s₂) :
    Q s₁ a s₂ := by
  induction as generalizing s with
  | nil =>
    cases hrun
    exact (h s₂ hstep).1
  | cons b as ih =>
    simp only [run, Option.bind_eq_some_iff] at hrun
    obtain ⟨t, ht, hrest⟩ := hrun
    exact ih (h t ht).2 hrest

/-- A property that holds before a guarded run and is kept by every guarded step holds after it. -/
theorem Guarded.invariant {G : σ → α → Prop} {I : σ → Prop}
    (hstep : ∀ s a s', step s a = some s' → G s a → I s → I s') {s s' : σ} {as : List α}
    (hg : Guarded step G s as) (h : run step s as = some s') (hI : I s) : I s' := by
  induction as generalizing s with
  | nil => cases h; exact hI
  | cons a as ih =>
    simp only [run, Option.bind_eq_some_iff] at h
    obtain ⟨s₁, hs₁, hrest⟩ := h
    obtain ⟨hGa, hG⟩ := hg s₁ hs₁
    exact ih hG hrest (hstep s a s₁ hs₁ hGa hI)

theorem Guarded.append {G : σ → α → Prop} {s s' : σ} {as bs : List α} (has : Guarded step G s as)
    (h : run step s as = some s') (hbs : Guarded step G s' bs) : Guarded step G s (as ++ bs) := by
  induction as generalizing s with
  | nil => cases h; exact hbs
  | cons a as ih =>
    intro s₁ hs₁
    obtain ⟨hGa, has⟩ := has s₁ hs₁
    rw [run_cons hs₁] at h
    exact ⟨hGa, ih has h⟩

theorem Guarded.and {G H : σ → α → Prop} {s : σ} {as : List α} (hG : Guarded step G s as) (hH : Guarded step H s as) :
    Guarded step (fun s a => G s a ∧ H s a) s as := by
  induction as generalizing s with
  | nil => trivial
  | cons a as ih =>
    intro s' hs
    obtain ⟨hGa, hG⟩ := hG s' hs
    obtain ⟨hHa, hH⟩ := hH s' hs
    exact ⟨⟨hGa, hHa⟩, ih hG hH⟩

/-- A guard, tested along a run. -/
def testGuard (step : σ → α → Option σ) (test : σ → α → Bool) : σ → List α → Bool
  | _, [] => true
  | s, a :: as => (step s a).all fun s' => test s a && testGuard step test s' as

theorem Guarded.of_test {G : σ → α → Prop} {test : σ → α → Bool} (htest : ∀ s a, test s a → G s a) {s : σ}
    {as : List α} (h : testGuard step test s as) : Guarded step G s as := by
  induction as generalizing s with
  | nil => trivial
  | cons a as ih =>
    intro s' hs
    simp only [testGuard, hs, Option.all_some, Bool.and_eq_true] at h
    exact ⟨htest s a h.1, ih h.2⟩

/-- What follows from an invariant and the guard at a step holds at every step of a guarded run. -/
theorem Guarded.allSteps {G : σ → α → Prop} {I : σ → Prop} {Q : σ → α → σ → Prop}
    (hstep : ∀ s a s', step s a = some s' → G s a → I s → I s')
    (hQ : ∀ s a s', step s a = some s' → G s a → I s → Q s a s') {s : σ} {as : List α}
    (hg : Guarded step G s as) (hI : I s) : AllSteps step Q s as := by
  induction as generalizing s with
  | nil => trivial
  | cons a as ih =>
    intro s' hs
    obtain ⟨hGa, hG⟩ := hg s' hs
    exact ⟨hQ s a s' hs hGa hI, ih hG (hstep s a s' hs hGa hI)⟩

/-- Two step predicates that agree at the guarded steps from a state with the invariant, one of which keeps the
invariant, hold along the same guarded runs. -/
theorem Guarded.congr {G : σ → α → Prop} {I : σ → Prop} {Q R : σ → α → σ → Prop}
    (hQR : ∀ s a s', step s a = some s' → G s a → I s → (Q s a s' ↔ R s a s'))
    (hQ : ∀ s a s', step s a = some s' → G s a → I s → Q s a s' → I s') {s : σ} {as : List α}
    (hg : Guarded step G s as) (hI : I s) : AllSteps step Q s as ↔ AllSteps step R s as := by
  induction as generalizing s with
  | nil => exact Iff.rfl
  | cons a as ih =>
    constructor
    · intro h s' hs
      obtain ⟨hq, hrest⟩ := h s' hs
      obtain ⟨hGa, hG⟩ := hg s' hs
      exact ⟨(hQR s a s' hs hGa hI).1 hq, (ih hG (hQ s a s' hs hGa hI hq)).1 hrest⟩
    · intro h s' hs
      obtain ⟨hr, hrest⟩ := h s' hs
      obtain ⟨hGa, hG⟩ := hg s' hs
      have hq := (hQR s a s' hs hGa hI).2 hr
      exact ⟨hq, (ih hG (hQ s a s' hs hGa hI hq)).2 hrest⟩

/-- Two step predicates that agree wherever the invariant holds, one of which keeps the invariant, hold along the
same runs. -/
theorem AllSteps.congr {I : σ → Prop} {Q R : σ → α → σ → Prop}
    (hQR : ∀ s a s', step s a = some s' → I s → (Q s a s' ↔ R s a s'))
    (hQ : ∀ s a s', step s a = some s' → I s → Q s a s' → I s') {s : σ} (hI : I s) (as : List α) :
    AllSteps step Q s as ↔ AllSteps step R s as := by
  have hg : Guarded step (fun _ _ => True) s as := .of_forall fun _ _ _ _ => trivial
  exact hg.congr (fun s a s' hs _ => hQR s a s' hs) (fun s a s' hs _ => hQ s a s' hs) hI

/-! ### What a run adds up to -/

section Total

variable {M : Type*} [AddMonoid M] {gain : σ → α → M}

/-- The gains of the steps of a run, in order. -/
def total (step : σ → α → Option σ) (gain : σ → α → M) : σ → List α → M
  | _, [] => 0
  | s, a :: as => gain s a + match step s a with
    | some s' => total step gain s' as
    | none => 0

/-- A property of an amount and a state, in which every guarded step adds its gain to the amount. -/
theorem Guarded.total {G : σ → α → Prop} {I : M → σ → Prop}
    (hstep : ∀ n s a s', step s a = some s' → G s a → I n s → I (n + gain s a) s') {n : M} {s s' : σ} {as : List α}
    (hg : Guarded step G s as) (h : run step s as = some s') (hI : I n s) : I (n + Run.total step gain s as) s' := by
  induction as generalizing n s with
  | nil =>
    cases h
    rw [Run.total, add_zero]
    exact hI
  | cons a as ih =>
    simp only [run, Option.bind_eq_some_iff] at h
    obtain ⟨s₁, hs₁, hrest⟩ := h
    obtain ⟨hGa, hG⟩ := hg s₁ hs₁
    rw [Run.total, hs₁, ← add_assoc]
    exact ih hG hrest (hstep n s a s₁ hs₁ hGa hI)

end Total

/-! ### What a run puts out -/

section Outputs

variable {β : Type*} {out : σ → α → List β}

/-- What the steps of a run put out, in order. -/
def outputs (step : σ → α → Option σ) (out : σ → α → List β) : σ → List α → List β
  | _, [] => []
  | s, a :: as => out s a ++ match step s a with
    | some s' => outputs step out s' as
    | none => []

/-- A property of what was put out and a state, which every guarded step keeps with its output appended. -/
theorem Guarded.outputs {G : σ → α → Prop} {I : List β → σ → Prop}
    (hstep : ∀ l s a s', step s a = some s' → G s a → I l s → I (l ++ out s a) s') {l : List β} {s s' : σ}
    {as : List α} (hg : Guarded step G s as) (h : run step s as = some s') (hI : I l s) :
    I (l ++ Run.outputs step out s as) s' := by
  induction as generalizing l s with
  | nil =>
    cases h
    rw [Run.outputs, List.append_nil]
    exact hI
  | cons a as ih =>
    simp only [run, Option.bind_eq_some_iff] at h
    obtain ⟨s₁, hs₁, hrest⟩ := h
    obtain ⟨hGa, hG⟩ := hg s₁ hs₁
    rw [Run.outputs, hs₁, ← List.append_assoc]
    exact ih hG hrest (hstep l s a s₁ hs₁ hGa hI)

end Outputs

end Zappy.Run

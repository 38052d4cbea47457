import Mathlib.Data.List.Basic

/-!
# Maps that may fail

`List.mapM` with a partial function gives the list of its results when it has one for every element.
-/

namespace Zappy.Traverse

variable {α β : Type*} {f g : α → Option β} {l : List α} {l' : List β}

/-- Each result is that of the element in its place. -/
theorem mapM_getElem? (h : l.mapM f = some l') (i : Nat) : l'[i]? = l[i]?.bind f := by
  induction l generalizing l' i with
  | nil => cases h; simp
  | cons a l ih =>
    simp only [List.mapM_cons, Option.bind_eq_bind, Option.bind_eq_some_iff, Option.pure_def,
      Option.some.injEq] at h
    obtain ⟨b, hb, bs, hbs, rfl⟩ := h
    cases i with
    | zero => simp [hb]
    | succ i => simpa using ih hbs i

theorem length_eq_of_mapM (h : l.mapM f = some l') : l'.length = l.length := by
  induction l generalizing l' with
  | nil => cases h; rfl
  | cons a l ih =>
    simp only [List.mapM_cons, Option.bind_eq_bind, Option.bind_eq_some_iff, Option.pure_def,
      Option.some.injEq] at h
    obtain ⟨b, -, bs, hbs, rfl⟩ := h
    simp [ih hbs]

theorem mapM_isSome : (l.mapM f).isSome ↔ ∀ a ∈ l, (f a).isSome := by
  induction l with
  | nil => simp
  | cons a l ih =>
    rw [List.mapM_cons, List.forall_mem_cons, ← ih]
    cases f a with
    | none => simp
    | some b => cases l.mapM f <;> simp

theorem mapM_congr (h : ∀ a ∈ l, f a = g a) : l.mapM f = l.mapM g := by
  induction l with
  | nil => rfl
  | cons a l ih =>
    rw [List.forall_mem_cons] at h
    rw [List.mapM_cons, List.mapM_cons, h.1, ih h.2]

theorem mapM_replicate_some {a : α} {b : β} (h : f a = some b) (n : Nat) :
    (List.replicate n a).mapM f = some (List.replicate n b) := by
  induction n with
  | zero => rfl
  | succ n ih => rw [List.replicate_succ, List.mapM_cons, h, ih]; rfl

/-- A loop does not notice a body that does the same on its elements. -/
theorem foldlM_congr {σ : Type*} {step step' : σ → α → Option σ} (h : ∀ s, ∀ a ∈ l, step s a = step' s a) {s : σ} :
    l.foldlM step s = l.foldlM step' s := by
  induction l generalizing s with
  | nil => rfl
  | cons a l ih =>
    rw [List.foldlM_cons, List.foldlM_cons, h s a List.mem_cons_self]
    exact congrArg (step' s a).bind (funext fun s' => ih fun s b hb => h s b (List.mem_cons_of_mem a hb))

end Zappy.Traverse

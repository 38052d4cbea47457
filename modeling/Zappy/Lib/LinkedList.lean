import Mathlib.Data.List.Basic

/-!
# Doubly linked lists in a heap of links

`next` and `prev` give the links stored in each node.  `Seg next prev before h l` says that following `next` from
`h` visits exactly the nodes of `l` and stops, and that each node's `prev` names the node before it, `before` for
the first one; `IsList` is a segment with no node before it and no node visited twice.  Inserting at the head and
unlinking a node keep the shape whatever the new links are, as long as they agree with the old ones away from the
nodes the operation writes.  `forEach` is the loop `while (it) { body; it = it->next; }`.
-/

namespace Zappy.LinkedList

variable {α : Type*} {next prev next' prev' : α → Option α}

/-- The nodes of `l`, linked in order from `h`, the first one with predecessor `before`. -/
def Seg (next prev : α → Option α) : Option α → Option α → List α → Prop
  | _, h, [] => h = none
  | before, h, a :: l => h = some a ∧ prev a = before ∧ Seg next prev (some a) (next a) l

/-- A whole list: no node before the first, no node twice. -/
structure IsList (next prev : α → Option α) (h : Option α) (l : List α) : Prop where
  seg : Seg next prev none h l
  nodup : l.Nodup

theorem Seg.congr {before h : Option α} {l : List α} (hs : Seg next prev before h l)
    (hn : ∀ a ∈ l, next' a = next a) (hp : ∀ a ∈ l, prev' a = prev a) : Seg next' prev' before h l := by
  induction l generalizing before h with
  | nil => exact hs
  | cons a l ih =>
    obtain ⟨h1, h2, h3⟩ := hs
    refine ⟨h1, (hp a (by simp)).trans h2, ?_⟩
    rw [hn a (by simp)]
    exact ih h3 (fun b hb => hn b (by simp [hb])) (fun b hb => hp b (by simp [hb]))

theorem Seg.unique {before before' h : Option α} {l l' : List α} (hs : Seg next prev before h l)
    (hs' : Seg next prev before' h l') : l = l' := by
  induction l generalizing before before' h l' with
  | nil =>
    cases l' with
    | nil => rfl
    | cons b l' => exact absurd (hs.symm.trans hs'.1) (by simp)
  | cons a l ih =>
    cases l' with
    | nil => exact absurd (hs'.symm.trans hs.1) (by simp)
    | cons b l' =>
      obtain rfl : a = b := Option.some.inj (hs.1.symm.trans hs'.1)
      rw [ih hs.2.2 hs'.2.2]

/-- A segment starts at its first node. -/
theorem Seg.head_eq {before h : Option α} {l : List α} (hs : Seg next prev before h l) : h = l.head? := by
  cases l with
  | nil => exact hs
  | cons a l => exact hs.1

/-- The successor of a node of a segment is the next one in the list. -/
theorem Seg.next_eq {before h : Option α} {l₁ l₂ : List α} {a : α}
    (hs : Seg next prev before h (l₁ ++ a :: l₂)) : next a = l₂.head? := by
  induction l₁ generalizing before h with
  | nil => exact hs.2.2.head_eq
  | cons b l₁ ih => exact ih hs.2.2

/-- The successor of a node of a segment is a later node of it. -/
theorem Seg.next_mem {before h : Option α} {l : List α} (hs : Seg next prev before h l) {a b : α} (ha : a ∈ l)
    (hab : next a = some b) : b ∈ l := by
  induction l generalizing before h with
  | nil => cases ha
  | cons x l ih =>
    rcases List.mem_cons.1 ha with rfl | ha
    · cases l with
      | nil => exact absurd (hab.symm.trans hs.2.2) (by simp)
      | cons y l =>
        obtain rfl : b = y := Option.some.inj (hab.symm.trans hs.2.2.1)
        simp
    · exact List.mem_cons_of_mem _ (ih hs.2.2 ha)

/-- The predecessor of a node of a segment is `before` for the first node and a node of the segment else. -/
theorem Seg.prev_mem {before h : Option α} {l : List α} (hs : Seg next prev before h l) {a : α} (ha : a ∈ l) :
    prev a = before ∨ ∃ b ∈ l, prev a = some b := by
  induction l generalizing before h with
  | nil => cases ha
  | cons x l ih =>
    rcases List.mem_cons.1 ha with rfl | ha
    · exact Or.inl hs.2.1
    · rcases ih hs.2.2 ha with hx | ⟨b, hb, hab⟩
      · exact Or.inr ⟨x, by simp, hx⟩
      · exact Or.inr ⟨b, by simp [hb], hab⟩

theorem IsList.congr {h : Option α} {l : List α} (hl : IsList next prev h l) (hn : ∀ a ∈ l, next' a = next a)
    (hp : ∀ a ∈ l, prev' a = prev a) : IsList next' prev' h l :=
  ⟨hl.seg.congr hn hp, hl.nodup⟩

theorem IsList.head_mem {h : Option α} {l : List α} (hl : IsList next prev h l) {a : α} (ha : h = some a) :
    a ∈ l := by
  cases l with
  | nil => exact absurd (ha.symm.trans hl.seg) (by simp)
  | cons b l =>
    obtain rfl : a = b := Option.some.inj (ha.symm.trans hl.seg.1)
    simp

section Write

variable [DecidableEq α]

/-- Insertion at the head. -/
theorem IsList.cons {h : Option α} {l : List α} (hl : IsList next prev h l) {a : α} (ha : a ∉ l)
    (hna : next' a = h) (hpa : prev' a = none) (hn : ∀ b ∈ l, next' b = next b)
    (hp : ∀ b ∈ l, prev' b = if h = some b then some a else prev b) :
    IsList next' prev' (some a) (a :: l) := by
  refine ⟨⟨rfl, hpa, ?_⟩, List.nodup_cons.2 ⟨ha, hl.nodup⟩⟩
  rw [hna]
  obtain ⟨hs, hnd⟩ := hl
  cases l with
  | nil => exact hs
  | cons b l =>
    obtain ⟨h1, h2, h3⟩ := hs
    refine ⟨h1, by rw [hp b (by simp), h1]; simp, ?_⟩
    rw [hn b (by simp)]
    refine h3.congr (fun c hc => hn c (by simp [hc])) (fun c hc => ?_)
    have hbc : b ≠ c := fun he => (List.nodup_cons.1 hnd).1 (he ▸ hc)
    rw [hp c (by simp [hc]), h1]
    simp [hbc]

/-- Unlinking a node of a segment: its neighbours are linked to each other. -/
theorem Seg.unlink {before h : Option α} {l : List α} {a : α} (hs : Seg next prev before h l) (hnd : l.Nodup)
    (ha : a ∈ l) (hb : ∀ b, before = some b → b ∉ l)
    (hn : ∀ b, b ≠ a → next' b = if prev a = some b then next a else next b)
    (hp : ∀ b, b ≠ a → prev' b = if next a = some b then prev a else prev b) :
    Seg next' prev' before (if prev a = before then next a else h) (l.erase a) := by
  induction l generalizing before h with
  | nil => cases ha
  | cons x l ih =>
    obtain ⟨hx, hl⟩ := List.nodup_cons.1 hnd
    obtain ⟨h1, h2, h3⟩ := hs
    by_cases hxa : x = a
    · subst hxa
      rw [List.erase_cons_head, if_pos h2]
      -- the node is the first of the segment: its successor takes over its predecessor
      cases l with
      | nil => exact h3
      | cons y l =>
        obtain ⟨e1, e2, e3⟩ := h3
        have hyx : y ≠ x := fun he => hx (he ▸ List.mem_cons_self ..)
        have hbl : ∀ z ∈ y :: l, prev x ≠ some z := fun z hz he =>
          hb z (h2.symm.trans he) (List.mem_cons_of_mem _ hz)
        refine ⟨e1, by rw [hp y hyx, if_pos e1, h2], ?_⟩
        rw [hn y hyx, if_neg (hbl y (by simp))]
        refine e3.congr (fun z hz => ?_) (fun z hz => ?_)
        · have hzx : z ≠ x := fun he => hx (he ▸ List.mem_cons_of_mem _ hz)
          rw [hn z hzx, if_neg (hbl z (by simp [hz]))]
        · have hzx : z ≠ x := fun he => hx (he ▸ List.mem_cons_of_mem _ hz)
          have hyz : y ≠ z := fun he => (List.nodup_cons.1 hl).1 (he ▸ hz)
          rw [hp z hzx, e1]
          simp [hyz]
    · have hal : a ∈ l := by
        rcases List.mem_cons.1 ha with he | he
        · exact absurd he.symm hxa
        · exact he
      have hpa : prev a ≠ before := by
        intro he
        rcases h3.prev_mem hal with hx' | ⟨w, hw, hw'⟩
        · exact hb x (he.symm.trans hx') (List.mem_cons_self ..)
        · exact hb w (he.symm.trans hw') (List.mem_cons_of_mem _ hw)
      have hna : next a ≠ some x := fun he => hx (h3.next_mem hal he)
      rw [if_neg hpa, List.erase_cons_tail (by simpa using hxa)]
      refine ⟨h1, by rw [hp x hxa, if_neg hna, h2], ?_⟩
      rw [hn x hxa]
      exact ih h3 hl hal (fun b hbe => by cases hbe; exact hx)

/-- Unlinking a node of a list. -/
theorem IsList.unlink {h : Option α} {l : List α} {a : α} (hl : IsList next prev h l) (ha : a ∈ l)
    (hn : ∀ b, b ≠ a → next' b = if prev a = some b then next a else next b)
    (hp : ∀ b, b ≠ a → prev' b = if next a = some b then prev a else prev b) :
    IsList next' prev' (if prev a = none then next a else h) (l.erase a) :=
  ⟨hl.seg.unlink hl.nodup ha (by simp) hn hp, hl.nodup.erase a⟩

end Write

section ForEach

variable {σ : Type*}

/-- `while (it) { body; it = it->next; }`, the successor being read after the body.  `none` when `body` or the
read has no result, or when `fuel` nodes were visited and the list goes on. -/
def forEach (body : σ → α → Option σ) (nextOf : σ → α → Option (Option α)) : Nat → σ → Option α → Option σ
  | _, s, none => some s
  | 0, _, some _ => none
  | n + 1, s, some a =>
    (body s a).bind fun s' => (nextOf s' a).bind fun it => forEach body nextOf n s' it

/-- The state of the loop and the node it has come to after `n` turns, or at its end. -/
def turns (body : σ → α → Option σ) (nextOf : σ → α → Option (Option α)) :
    Nat → σ → Option α → Option (σ × Option α)
  | 0, s, it => some (s, it)
  | _ + 1, s, none => some (s, none)
  | n + 1, s, some a => (body s a).bind fun s' => (nextOf s' a).bind fun it => turns body nextOf n s' it

/-- The loop ends within `n` turns when no node is left after them. -/
theorem forEach_eq_turns (body : σ → α → Option σ) (nextOf : σ → α → Option (Option α)) (n : Nat) (s : σ)
    (it : Option α) :
    forEach body nextOf n s it = (turns body nextOf n s it).bind fun r =>
      match r.2 with
      | none => some r.1
      | some _ => none := by
  induction n generalizing s it with
  | zero => cases it <;> rfl
  | succ n ih =>
    cases it with
    | none => rfl
    | some a =>
      simp only [forEach, turns, Option.bind_assoc]
      refine Option.bind_congr fun s' _ => Option.bind_congr fun it' _ => ih s' it'

/-- A loop each of whose turns has a result and keeps an invariant has a result after any number of turns. -/
theorem turns_total {body : σ → α → Option σ} {nextOf : σ → α → Option (Option α)} {I : σ → Option α → Prop}
    (hturn : ∀ s a, I s (some a) → ∃ s' it, body s a = some s' ∧ nextOf s' a = some it ∧ I s' it) (n : Nat) {s : σ}
    {it : Option α} (hI : I s it) : ∃ s' it', turns body nextOf n s it = some (s', it') ∧ I s' it' := by
  induction n generalizing s it with
  | zero => exact ⟨s, it, rfl, hI⟩
  | succ n ih =>
    cases it with
    | none => exact ⟨s, none, rfl, hI⟩
    | some a =>
      obtain ⟨s₁, it₁, h₁, h₂, hI₁⟩ := hturn s a hI
      obtain ⟨s', it', h, hI'⟩ := ih hI₁
      exact ⟨s', it', by simp only [turns, h₁, h₂, Option.bind_some, h], hI'⟩

/-- What the body keeps, the loop keeps. -/
theorem forEach_invariant {body : σ → α → Option σ} {nextOf : σ → α → Option (Option α)} {I : σ → Prop}
    (hbody : ∀ s a s', body s a = some s' → I s → I s') {n : Nat} {s s' : σ} {it : Option α}
    (h : forEach body nextOf n s it = some s') (hI : I s) : I s' := by
  induction n generalizing s it with
  | zero =>
    cases it with
    | none => cases h; exact hI
    | some a => cases h
  | succ n ih =>
    cases it with
    | none => cases h; exact hI
    | some a =>
      simp only [forEach, Option.bind_eq_some_iff] at h
      obtain ⟨s₁, h1, it', _, h2⟩ := h
      exact ih h2 (hbody s a s₁ h1 hI)

/-- A loop that ends does so with more turns as well. -/
theorem forEach_mono {body : σ → α → Option σ} {nextOf : σ → α → Option (Option α)} {n m : Nat} (hnm : n ≤ m)
    {s s' : σ} {it : Option α} (h : forEach body nextOf n s it = some s') : forEach body nextOf m s it = some s' := by
  induction n generalizing m s it with
  | zero =>
    cases it with
    | none => cases m <;> exact h
    | some a => cases h
  | succ n ih =>
    obtain ⟨k, rfl⟩ : ∃ k, m = k + 1 := ⟨m - 1, by omega⟩
    cases it with
    | none => exact h
    | some a =>
      simp only [forEach, Option.bind_eq_some_iff] at h ⊢
      obtain ⟨s₁, h1, it', h2, h3⟩ := h
      exact ⟨s₁, h1, it', h2, ih (by omega) h3⟩

/-- A loop that does not end with more turns does not end with fewer. -/
theorem forEach_none_of_add {body : σ → α → Option σ} {nextOf : σ → α → Option (Option α)} {k n : Nat} {s : σ}
    {it : Option α} (h : forEach body nextOf (k + n) s it = none) : forEach body nextOf n s it = none := by
  cases hn : forEach body nextOf n s it with
  | none => rfl
  | some s' =>
    rw [forEach_mono (Nat.le_add_left n k) hn] at h
    cases h

/-- A loop each of whose turns comes to a further node never ends. -/
theorem forEach_never {body : σ → α → Option σ} {nextOf : σ → α → Option (Option α)} {I : σ → α → Prop}
    (hturn : ∀ s a, I s a → ∃ s' b, body s a = some s' ∧ nextOf s' a = some (some b) ∧ I s' b) (n : Nat) {s : σ}
    {a : α} (hI : I s a) : forEach body nextOf n s (some a) = none := by
  induction n generalizing s a with
  | zero => rfl
  | succ n ih =>
    obtain ⟨s', b, h1, h2, hI'⟩ := hturn s a hI
    simp only [forEach, h1, h2, Option.bind_some]
    exact ih hI'

/-- A loop whose body leaves the links alone runs its body on each node of the segment, in order. -/
theorem forEach_eq_foldlM {body : σ → α → Option σ} {nextOf : σ → α → Option (Option α)} {before h : Option α}
    {l : List α} {n : Nat} {s : σ} (hs : Seg next prev before h l)
    (hnext : ∀ a ∈ l, nextOf s a = some (next a))
    (hbody : ∀ s s' a, body s a = some s' → nextOf s' = nextOf s) (hn : l.length ≤ n) :
    forEach body nextOf n s h = l.foldlM body s := by
  induction l generalizing before h n s with
  | nil => cases hs; cases n <;> rfl
  | cons a l ih =>
    obtain ⟨rfl, -, h3⟩ := hs
    obtain ⟨m, rfl⟩ : ∃ m, n = m + 1 := ⟨n - 1, by simp at hn; omega⟩
    simp only [forEach, List.foldlM_cons]
    cases hb : body s a with
    | none => rfl
    | some s' =>
      have he := hbody s s' a hb
      have hna : nextOf s' a = some (next a) := by rw [he]; exact hnext a (by simp)
      simp only [Option.bind_some, hna]
      exact ih h3 (fun b hb' => by rw [he]; exact hnext b (by simp [hb'])) (by simp at hn; omega)

end ForEach

end Zappy.LinkedList

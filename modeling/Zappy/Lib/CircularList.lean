import Mathlib.Data.List.Basic
import Mathlib.Data.List.Induction
import Mathlib.Data.List.Nodup

/-!
# Circular doubly linked lists in a heap of links

`next` and `prev` give the links stored in each node.  `Links next prev a l b` says that following `next` from `a`
visits the nodes of `l` and arrives at `b`, and that each `prev` on the way names the node before.  A circle is such a
way from its head back to the head, with no node visited twice.
-/

namespace Zappy.CircularList

variable {α : Type*} {next prev next' prev' : α → Option α}

/-- The way from `a` through `l` to `b`. -/
def Links (next prev : α → Option α) : α → List α → α → Prop
  | a, [], b => next a = some b ∧ prev b = some a
  | a, x :: l, b => next a = some x ∧ prev x = some a ∧ Links next prev x l b

/-- The circle with head `h` and then the nodes of `t`. -/
structure Circle (next prev : α → Option α) (h : α) (t : List α) : Prop where
  links : Links next prev h t h
  nodup : (h :: t).Nodup

theorem Links.next_eq {a b : α} {l : List α} (hl : Links next prev a l b) : next a = some (l.headD b) := by
  cases l with
  | nil => exact hl.1
  | cons x l => exact hl.1

theorem Links.prev_end {a b : α} {l : List α} (hl : Links next prev a l b) : prev b = some (l.getLastD a) := by
  induction l generalizing a with
  | nil => exact hl.2
  | cons x l ih =>
    rw [List.getLastD_cons]
    exact ih hl.2.2

theorem Links.prev_mid {a b x : α} {l l' : List α} (hl : Links next prev a (l ++ x :: l') b) :
    prev x = some (l.getLastD a) := by
  induction l generalizing a with
  | nil => exact hl.2.1
  | cons y l ih =>
    rw [List.getLastD_cons]
    exact ih hl.2.2

/-- A way through `x` is a way to `x` and one from there. -/
theorem links_append_cons {a b x : α} {l l' : List α} :
    Links next prev a (l ++ x :: l') b ↔ Links next prev a l x ∧ Links next prev x l' b := by
  induction l generalizing a with
  | nil => exact ⟨fun h => ⟨⟨h.1, h.2.1⟩, h.2.2⟩, fun h => ⟨h.1.1, h.1.2, h.2⟩⟩
  | cons y l ih =>
    rw [List.cons_append]
    constructor
    · rintro ⟨hn, hp, hl⟩
      obtain ⟨hto, hfrom⟩ := ih.1 hl
      exact ⟨⟨hn, hp, hto⟩, hfrom⟩
    · rintro ⟨⟨hn, hp, hto⟩, hfrom⟩
      exact ⟨hn, hp, ih.2 ⟨hto, hfrom⟩⟩

/-- The way back, with the two links exchanged. -/
theorem Links.reverse {a b : α} {l : List α} (hl : Links next prev a l b) : Links prev next b l.reverse a := by
  induction l generalizing a with
  | nil => exact ⟨hl.2, hl.1⟩
  | cons x l ih =>
    rw [List.reverse_cons]
    exact links_append_cons.2 ⟨ih hl.2.2, hl.2.1, hl.1⟩

/-- The two links are inverse to each other. -/
theorem Links.prev_next {a b x : α} {l : List α} (hl : Links next prev a l b) (hx : x ∈ a :: l) :
    (next x).bind prev = some x := by
  induction l generalizing a with
  | nil =>
    rw [List.mem_singleton.1 hx, hl.1]
    exact hl.2
  | cons y l ih =>
    rcases List.mem_cons.1 hx with rfl | hx
    · rw [hl.1]
      exact hl.2.1
    · exact ih hl.2.2 hx

/-- Only the links of the nodes on the way matter. -/
theorem Links.congr {a b : α} {l : List α} (hl : Links next prev a l b) (hn : ∀ x ∈ a :: l, next' x = next x)
    (hp : ∀ x ∈ l, prev' x = prev x) (hb : prev' b = prev b) : Links next' prev' a l b := by
  induction l generalizing a with
  | nil => exact ⟨(hn a (by simp)).trans hl.1, hb.trans hl.2⟩
  | cons x l ih =>
    refine ⟨(hn a (by simp)).trans hl.1, (hp x (by simp)).trans hl.2.1, ih hl.2.2 ?_ ?_⟩
    · exact fun y hy => hn y (List.mem_cons_of_mem _ hy)
    · exact fun y hy => hp y (List.mem_cons_of_mem _ hy)

/-- The last node of the way is linked to `c` instead. -/
private theorem Links.redirect {a b c : α} {l : List α} (hl : Links next prev a l b) (hnd : (a :: l).Nodup)
    (hn : ∀ x ∈ a :: l, x ≠ l.getLastD a → next' x = next x) (hp : ∀ x ∈ l, prev' x = prev x)
    (hlast : next' (l.getLastD a) = some c) (hc : prev' c = some (l.getLastD a)) : Links next' prev' a l c := by
  induction l generalizing a with
  | nil => exact ⟨hlast, hc⟩
  | cons x l ih =>
    rw [List.getLastD_cons] at *
    have hne : a ≠ l.getLastD x := by
      intro he
      exact (List.nodup_cons.1 hnd).1 (he ▸ List.getLastD_mem_cons)
    refine ⟨(hn a (by simp) hne).trans hl.1, (hp x (by simp)).trans hl.2.1, ?_⟩
    refine ih hl.2.2 (List.nodup_cons.1 hnd).2 ?_ ?_ hlast hc
    · exact fun y hy => hn y (List.mem_cons_of_mem _ hy)
    · exact fun y hy => hp y (List.mem_cons_of_mem _ hy)

/-- A node `c` is put between the last node of the way and `b`. -/
theorem Links.concat {a b c : α} {l : List α} (hl : Links next prev a l b) (hnd : (a :: l).Nodup)
    (hn : ∀ x ∈ a :: l, x ≠ l.getLastD a → next' x = next x) (hp : ∀ x ∈ l, prev' x = prev x)
    (hlast : next' (l.getLastD a) = some c) (hc : prev' c = some (l.getLastD a)) (hcn : next' c = some b)
    (hb : prev' b = some c) : Links next' prev' a (l ++ [c]) b :=
  links_append_cons.2 ⟨hl.redirect hnd hn hp hlast hc, hcn, hb⟩

/-- Insertion at the end: only the links between the last node, the new one and the head are written. -/
theorem Circle.concat {h c : α} {t : List α} (hcircle : Circle next prev h t) (hc : c ∉ h :: t)
    (hn : ∀ x ∈ h :: t, x ≠ t.getLastD h → next' x = next x) (hp : ∀ x ∈ t, prev' x = prev x)
    (hlast : next' (t.getLastD h) = some c) (hcp : prev' c = some (t.getLastD h)) (hcn : next' c = some h)
    (hhead : prev' h = some c) : Circle next' prev' h (t ++ [c]) := by
  refine ⟨hcircle.links.concat hcircle.nodup hn hp hlast hcp hcn hhead, ?_⟩
  rw [← List.cons_append, List.nodup_append]
  refine ⟨hcircle.nodup, by simp, ?_⟩
  intro x hx y hy
  rw [List.mem_singleton.1 hy]
  exact fun he => hc (he ▸ hx)

/-- The circle seen from the node after the head. -/
theorem Circle.rotate {h x : α} {t : List α} (hcircle : Circle next prev h (x :: t)) :
    Circle next prev x (t ++ [h]) := by
  refine ⟨links_append_cons.2 ⟨hcircle.links.2.2, hcircle.links.1, hcircle.links.2.1⟩, ?_⟩
  have hperm : (x :: (t ++ [h])).Perm (h :: x :: t) := List.perm_append_singleton h (x :: t)
  exact hperm.nodup_iff.2 hcircle.nodup

/-- The circle the other way round. -/
theorem Circle.reverse {h : α} {t : List α} (hcircle : Circle next prev h t) : Circle prev next h t.reverse := by
  refine ⟨hcircle.links.reverse, ?_⟩
  have hperm : (h :: t.reverse).Perm (h :: t) := (List.reverse_perm t).cons h
  exact hperm.nodup_iff.2 hcircle.nodup

/-- A node after the head is taken out: only the links of its two neighbours to it are written. -/
theorem Circle.remove {h x : α} {l l' : List α} (hcircle : Circle next prev h (l ++ x :: l'))
    (hn : ∀ y, y ≠ x → y ≠ l.getLastD h → next' y = next y) (hp : ∀ y, y ≠ x → y ≠ l'.headD h → prev' y = prev y)
    (hlast : next' (l.getLastD h) = some (l'.headD h)) (hfirst : prev' (l'.headD h) = some (l.getLastD h)) :
    Circle next' prev' h (l ++ l') := by
  obtain ⟨hto, hfrom⟩ := links_append_cons.1 hcircle.links
  have hnodup : (h :: (l ++ l')).Nodup :=
    hcircle.nodup.sublist (((List.Sublist.refl l).append (List.sublist_cons_self x l')).cons_cons h)
  have hne : ∀ y ∈ h :: (l ++ l'), y ≠ x := by
    intro y hy he
    have hperm : (h :: (l ++ x :: l')).Perm (x :: h :: (l ++ l')) :=
      (List.perm_middle.cons h).trans (List.Perm.swap x h _)
    exact (List.nodup_cons.1 (hperm.nodup_iff.1 hcircle.nodup)).1 (he ▸ hy)
  have hsplit : (h :: l ++ l').Nodup := hnodup
  obtain ⟨hndl, hndl', hdisjoint⟩ := List.nodup_append.1 hsplit
  refine ⟨?_, hnodup⟩
  cases l' with
  | nil =>
    rw [List.append_nil] at hne ⊢
    refine hto.redirect hndl (fun y hy => hn y (hne y hy)) (fun y hy => hp y (hne y (List.mem_cons_of_mem _ hy)) ?_)
      hlast hfirst
    exact fun he : y = h => (List.nodup_cons.1 hndl).1 (he ▸ hy)
  | cons z l' =>
    have hlastmem : l.getLastD h ∈ h :: l := List.getLastD_mem_cons
    refine links_append_cons.2 ⟨?_, ?_⟩
    · refine hto.redirect hndl (fun y hy => hn y (hne y ?_)) (fun y hy => hp y (hne y ?_) ?_) hlast hfirst
      · exact List.mem_append_left _ hy
      · exact List.mem_cons_of_mem _ (List.mem_append_left _ hy)
      · exact hdisjoint y (List.mem_cons_of_mem _ hy) z List.mem_cons_self
    · have hmem : ∀ y ∈ z :: l', y ∈ h :: (l ++ z :: l') := fun y hy =>
        List.mem_cons_of_mem _ (List.mem_append_right _ hy)
      refine hfrom.2.2.congr (fun y hy => hn y (hne y (hmem y hy)) ?_)
        (fun y hy => hp y (hne y (hmem y (List.mem_cons_of_mem _ hy))) ?_) (hp h (hne h List.mem_cons_self) ?_)
      · exact (hdisjoint _ hlastmem y hy).symm
      · exact fun he : y = z => (List.nodup_cons.1 hndl').1 (he ▸ hy)
      · exact hdisjoint h List.mem_cons_self z List.mem_cons_self

/-- A node linked to itself. -/
theorem Circle.singleton {h : α} (hn : next h = some h) (hp : prev h = some h) : Circle next prev h [] :=
  ⟨⟨hn, hp⟩, by simp⟩

/-- The loop `while (a->prev != h) a = a->prev`; `none` when it does not end within `fuel` turns. -/
def backTo [DecidableEq α] (prev : α → Option α) (h : α) : Nat → α → Option α
  | 0, _ => none
  | fuel + 1, a => (prev a).bind fun b => if b = h then some a else backTo prev h fuel b

/-- From a node after the head, going back ends at the node that follows the head. -/
private theorem Circle.backTo_mid [DecidableEq α] {h x : α} {l l' : List α} {fuel : Nat}
    (hcircle : Circle next prev h (l ++ x :: l')) (hfuel : l.length < fuel) :
    backTo prev h fuel x = some (l.headD x) := by
  induction l using List.reverseRecOn generalizing x l' fuel with
  | nil =>
    obtain ⟨fuel, rfl⟩ : ∃ n, fuel = n + 1 := ⟨fuel - 1, by omega⟩
    have hprev := hcircle.links.prev_mid
    simp only [List.getLastD_nil] at hprev
    simp [backTo, hprev]
  | append_singleton l y ih =>
    obtain ⟨fuel, rfl⟩ : ∃ n, fuel = n + 1 := ⟨fuel - 1, by omega⟩
    have hprev := hcircle.links.prev_mid
    rw [List.getLastD_concat] at hprev
    have hne : y ≠ h := by
      intro he
      apply (List.nodup_cons.1 hcircle.nodup).1
      simp [he]
    have hcircle' : Circle next prev h (l ++ y :: x :: l') := by simpa using hcircle
    rw [List.length_append, List.length_singleton] at hfuel
    simp only [backTo, hprev, Option.bind_some, if_neg hne]
    rw [ih hcircle' (by omega)]
    cases l with
    | nil => rfl
    | cons z l => rfl

/-- From the head, going back ends at the node that follows the head: the head itself when it is alone. -/
theorem Circle.backTo_head [DecidableEq α] {h : α} {t : List α} {fuel : Nat} (hcircle : Circle next prev h t)
    (hfuel : t.length < fuel) : backTo prev h fuel h = some (t.headD h) := by
  obtain ⟨fuel, rfl⟩ : ∃ n, fuel = n + 1 := ⟨fuel - 1, by omega⟩
  have hprev := hcircle.links.prev_end
  rcases List.eq_nil_or_concat t with rfl | ⟨l, x, rfl⟩
  · simp only [List.getLastD_nil] at hprev
    simp [backTo, hprev]
  · rw [List.concat_eq_append] at *
    rw [List.getLastD_concat] at hprev
    have hne : x ≠ h := by
      intro he
      apply (List.nodup_cons.1 hcircle.nodup).1
      simp [he]
    rw [List.length_append, List.length_singleton] at hfuel
    simp only [backTo, hprev, Option.bind_some, if_neg hne]
    rw [hcircle.backTo_mid (by omega)]
    cases l with
    | nil => rfl
    | cons z l => rfl

end Zappy.CircularList

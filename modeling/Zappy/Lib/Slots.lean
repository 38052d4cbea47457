import Mathlib.Data.List.ReduceOption
import Mathlib.Algebra.BigOperators.Group.List.Basic
import Mathlib.Algebra.BigOperators.Group.Finset.Piecewise

/-!
# Tables of slots

A table is a list of optional entries; `List.reduceOption` gives the entries in it.  Filling a free slot adds one
entry and emptying a slot takes one away, up to order.  Modifying one element of a list keeps the others, and any
field that the modification keeps.  Entries that are sorted into groups are as many as the members of all groups
together.
-/

namespace Zappy.Slots

variable {α : Type*} {slots : List (Option α)} {i : Nat} {a : α}

/-- A table around one of its slots. -/
private theorem split_at {slot : Option α} (h : slots[i]? = some slot) :
    slots = slots.take i ++ slot :: slots.drop (i + 1) := by
  obtain ⟨hi, he⟩ := List.getElem?_eq_some_iff.1 h
  rw [← he, List.cons_getElem_drop_succ, List.take_append_drop]

private theorem set_at {slot : Option α} (h : slots[i]? = some slot) (new : Option α) :
    slots.set i new = slots.take i ++ new :: slots.drop (i + 1) := by
  obtain ⟨hi, -⟩ := List.getElem?_eq_some_iff.1 h
  rw [List.set_eq_take_append_cons_drop, if_pos hi]

theorem reduceOption_fill (h : slots[i]? = some none) :
    (slots.set i (some a)).reduceOption.Perm (a :: slots.reduceOption) := by
  rw [set_at h, List.reduceOption_append, List.reduceOption_cons_of_some]
  conv_rhs => rw [split_at h, List.reduceOption_append, List.reduceOption_cons_of_none]
  exact List.perm_middle

theorem reduceOption_empty (h : slots[i]? = some (some a)) :
    slots.reduceOption.Perm (a :: (slots.set i none).reduceOption) := by
  rw [set_at h, List.reduceOption_append, List.reduceOption_cons_of_none]
  conv_lhs => rw [split_at h, List.reduceOption_append, List.reduceOption_cons_of_some]
  exact List.perm_middle

theorem mem_of_getElem? (h : slots[i]? = some (some a)) : a ∈ slots.reduceOption :=
  List.reduceOption_mem_iff.2 (List.mem_of_getElem? h)

/-- The first free slot of a table that is not full. -/
theorem findIdx?_free [BEq α] [LawfulBEq α] (h : slots.reduceOption.length < slots.length) :
    ∃ i, slots.findIdx? (fun slot => slot == none) = some i ∧ slots[i]? = some none := by
  have hmem := List.reduceOption_length_lt_iff.1 h
  have hsome : (slots.findIdx? fun slot => slot == none).isSome := by
    rw [List.findIdx?_isSome, List.any_eq_true]
    exact ⟨none, hmem, rfl⟩
  obtain ⟨i, hi⟩ := Option.isSome_iff_exists.1 hsome
  obtain ⟨hlt, he, -⟩ := List.findIdx?_eq_some_iff_getElem.1 hi
  exact ⟨i, hi, by rw [List.getElem?_eq_getElem hlt, eq_of_beq he]⟩

/-- The slot of an entry. -/
theorem findIdx?_entry [BEq α] [LawfulBEq α] (h : a ∈ slots.reduceOption) :
    ∃ i, slots.findIdx? (fun slot => slot == some a) = some i ∧ slots[i]? = some (some a) := by
  have hsome : (slots.findIdx? fun slot => slot == some a).isSome := by
    rw [List.findIdx?_isSome, List.any_eq_true]
    exact ⟨some a, List.reduceOption_mem_iff.1 h, by simp⟩
  obtain ⟨i, hi⟩ := Option.isSome_iff_exists.1 hsome
  obtain ⟨hlt, he, -⟩ := List.findIdx?_eq_some_iff_getElem.1 hi
  exact ⟨i, hi, by rw [List.getElem?_eq_getElem hlt, eq_of_beq he]⟩

/-- An element of a list of which one element was modified. -/
theorem getElem?_modify_some {l : List α} {f : α → α} {j : Nat} {b : α} (h : (l.modify i f)[j]? = some b) :
    ∃ b', l[j]? = some b' ∧ b = if i = j then f b' else b' := by
  rw [List.getElem?_modify, Option.map_eq_map, Option.map_eq_some_iff] at h
  obtain ⟨b', hb', rfl⟩ := h
  exact ⟨b', hb', rfl⟩

/-- A field that the modification keeps. -/
theorem map_modify {β : Type*} {g : α → β} {f : α → α} {l : List α} (h : ∀ a, g (f a) = g a) :
    (l.modify i f).map g = l.map g := by
  refine List.ext_getElem? fun j => ?_
  simp only [List.getElem?_map, List.getElem?_modify, Option.map_eq_map, Option.map_map]
  congr 1
  funext a
  simp only [Function.comp]
  split
  · exact h a
  · rfl

/-- Entries that all belong to one of `n` groups. -/
theorem sum_countP_eq_length {l : List α} {group : α → Option Nat} {n : Nat}
    (h : ∀ a ∈ l, ∃ i < n, group a = some i) :
    ∑ i ∈ Finset.range n, l.countP (fun a => group a = some i) = l.length := by
  induction l with
  | nil => simp
  | cons a l ih =>
    obtain ⟨i, hi, ha⟩ := h a List.mem_cons_self
    simp only [List.countP_cons, Finset.sum_add_distrib, ih fun b hb => h b (List.mem_cons_of_mem _ hb), ha,
      Option.some.injEq, decide_eq_true_eq, Finset.sum_ite_eq, Finset.mem_range, hi, if_true, List.length_cons]

/-- A sum in which one term is replaced. -/
theorem sum_range_update {M : Type*} [AddCommMonoid M] {n : Nat} (hi : i < n) (f : Nat → M) (v : M) :
    ∑ k ∈ Finset.range n, Function.update f i v k + f i = ∑ k ∈ Finset.range n, f k + v := by
  rw [Finset.sum_update_of_mem (Finset.mem_range.2 hi),
    Finset.sum_eq_add_sum_sdiff_singleton_of_mem (Finset.mem_range.2 hi) f]
  ac_rfl

/-- A sum over a list without duplicates, of which one term is replaced. -/
theorem sum_map_replace {M : Type*} [AddCommMonoid M] {l : List α} (hl : l.Nodup) {f g : α → M} (ha : a ∈ l)
    (hfg : ∀ b ∈ l, b ≠ a → g b = f b) : (l.map g).sum + f a = (l.map f).sum + g a := by
  classical
  have hrest : (l.erase a).map g = (l.erase a).map f := by
    refine List.map_congr_left fun b hb => ?_
    rw [hl.mem_erase_iff] at hb
    exact hfg b hb.2 hb.1
  rw [← List.sum_map_erase g ha, ← List.sum_map_erase f ha, hrest]
  ac_rfl

/-- A sum over a list, by index. -/
theorem sum_map_eq_sum_range {β M : Type*} [AddCommMonoid M] (l : List β) (f : β → M) (g : Nat → M)
    (h : ∀ i b, l[i]? = some b → f b = g i) : (l.map f).sum = ∑ i ∈ Finset.range l.length, g i := by
  induction l using List.reverseRecOn with
  | nil => simp
  | append_singleton l b ih =>
    have hb := h l.length b (by simp)
    have hl : ∀ i c, l[i]? = some c → f c = g i := fun i c hc => h i c (by
      rw [List.getElem?_append_left (List.getElem?_eq_some_iff.1 hc).1]; exact hc)
    rw [List.map_append, List.sum_append, ih hl, List.length_append, List.length_singleton, Finset.sum_range_succ,
      ← hb]
    simp

end Zappy.Slots

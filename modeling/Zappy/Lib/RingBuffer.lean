import Mathlib.Data.List.Basic
import Mathlib.Logic.Function.Basic

/-!
# The window of a circular buffer

A circular buffer of capacity `n` keeps its elements in the slots `head, head + 1, …, head + count - 1` modulo
`n`.  `window` reads them off in order; writing the slot after the last one appends, writing the slot before the
first one and moving the head back prepends, and advancing the head drops the first element.

A buffer that keeps `head` and `tail` but no count is read with `span`: it looks empty when the two are equal, so it
holds at most `n - 1` elements.
-/

namespace Zappy.RingBuffer

variable {α : Type*}

/-- The `count` elements from slot `head` on. -/
def window (n : Nat) (slots : Nat → α) (head count : Nat) : List α :=
  (List.range count).map fun k => slots ((head + k) % n)

@[simp] theorem window_length (n : Nat) (slots : Nat → α) (head count : Nat) :
    (window n slots head count).length = count := by
  simp [window]

@[simp] theorem window_zero (n : Nat) (slots : Nat → α) (head : Nat) : window n slots head 0 = [] := rfl

private theorem window_succ (n : Nat) (slots : Nat → α) (head count : Nat) :
    window n slots head (count + 1) = window n slots head count ++ [slots ((head + count) % n)] := by
  simp [window, List.range_succ]

private theorem window_cons {n head : Nat} (hh : head < n) (slots : Nat → α) (count : Nat) :
    window n slots head (count + 1) = slots head :: window n slots ((head + 1) % n) count := by
  simp only [window, List.range_succ_eq_map, List.map_cons, List.map_map, Nat.add_zero, Nat.mod_eq_of_lt hh]
  congr 1
  apply List.map_congr_left
  intro k _
  simp only [Function.comp, Nat.mod_add_mod]
  congr 2
  omega

/-- Distinct offsets below the capacity name distinct slots. -/
private theorem slot_ne {n head i j : Nat} (hij : i < j) (hj : j < n) : (head + i) % n ≠ (head + j) % n := by
  intro h
  have hd : n ∣ (head + j) - (head + i) := Nat.dvd_of_mod_eq_zero (Nat.sub_mod_eq_zero_of_mod_eq h.symm)
  have h0 := Nat.eq_zero_of_dvd_of_lt hd (by omega)
  omega

/-- The slot `i` holds none of the elements. -/
def Outside (n head count i : Nat) : Prop := ∀ k < count, (head + k) % n ≠ i

theorem outside_succ {n head count i : Nat} :
    Outside n head (count + 1) i ↔ Outside n head count i ∧ (head + count) % n ≠ i := by
  constructor
  · intro h
    exact ⟨fun k hk => h k (Nat.lt_succ_of_lt hk), h count (Nat.lt_succ_self count)⟩
  · rintro ⟨h, hlast⟩ k hk
    rcases Nat.lt_succ_iff_lt_or_eq.1 hk with hk | rfl
    · exact h k hk
    · exact hlast

theorem outside_cons {n head count i : Nat} (hh : head < n) :
    Outside n head (count + 1) i ↔ head ≠ i ∧ Outside n ((head + 1) % n) count i := by
  have hnext : ∀ k, ((head + 1) % n + k) % n = (head + (k + 1)) % n := by
    intro k
    rw [Nat.mod_add_mod]
    congr 1
    omega
  constructor
  · intro h
    refine ⟨?_, fun k hk => ?_⟩
    · have hfirst := h 0 (Nat.succ_pos count)
      rwa [Nat.add_zero, Nat.mod_eq_of_lt hh] at hfirst
    · rw [hnext]
      exact h (k + 1) (Nat.succ_lt_succ hk)
  · rintro ⟨hfirst, h⟩ k hk
    cases k with
    | zero => rwa [Nat.add_zero, Nat.mod_eq_of_lt hh]
    | succ k =>
      rw [← hnext]
      exact h k (Nat.lt_of_succ_lt_succ hk)

/-- The slot before the first element, once the head. -/
private theorem next_before {n head : Nat} (hh : head < n) : ((head + n - 1) % n + 1) % n = head := by
  rw [Nat.mod_add_mod, show head + n - 1 + 1 = head + n by omega, Nat.add_mod_right, Nat.mod_eq_of_lt hh]

theorem outside_push_front {n head count i : Nat} (hh : head < n) :
    Outside n ((head + n - 1) % n) (count + 1) i ↔ (head + n - 1) % n ≠ i ∧ Outside n head count i := by
  rw [outside_cons (Nat.mod_lt _ (by omega)), next_before hh]

/-- The slot behind the last element is free as long as the buffer is not full. -/
theorem outside_back {n head count : Nat} (hc : count < n) : Outside n head count ((head + count) % n) :=
  fun _ hk => slot_ne hk hc

/-- The slot before the first element is free as long as the buffer is not full. -/
theorem outside_front {n head count : Nat} (hc : count < n) : Outside n head count ((head + n - 1) % n) := by
  intro k hk
  have hne : (head + k) % n ≠ (head + (n - 1)) % n := slot_ne (by omega) (by omega)
  rwa [show head + (n - 1) = head + n - 1 by omega] at hne

theorem window_update_of_ne {n head count i : Nat} (slots : Nat → α) (x : α) (h : Outside n head count i) :
    window n (Function.update slots i x) head count = window n slots head count := by
  unfold window
  apply List.map_congr_left
  intro k hk
  rw [Function.update_of_ne (h k (List.mem_range.1 hk))]

/-- Writing the slot behind the last element appends. -/
theorem window_push_back {n head count : Nat} (hc : count < n) (slots : Nat → α) (x : α) :
    window n (Function.update slots ((head + count) % n) x) head (count + 1) =
      window n slots head count ++ [x] := by
  rw [window_succ, Function.update_self, window_update_of_ne]
  exact outside_back hc

/-- Moving the head back one slot and writing there prepends. -/
theorem window_push_front {n head count : Nat} (hh : head < n) (hc : count < n) (slots : Nat → α) (x : α) :
    window n (Function.update slots ((head + n - 1) % n) x) ((head + n - 1) % n) (count + 1) =
      x :: window n slots head count := by
  rw [window_cons (Nat.mod_lt _ (by omega)), Function.update_self, next_before hh, window_update_of_ne]
  exact outside_front hc

/-- Dropping the first element advances the head. -/
theorem window_pop {n head count : Nat} (hh : head < n) (hc : 0 < count) (slots : Nat → α) :
    window n slots head count = slots head :: window n slots ((head + 1) % n) (count - 1) := by
  obtain ⟨m, rfl⟩ : ∃ m, count = m + 1 := ⟨count - 1, by omega⟩
  rw [window_cons hh, Nat.add_sub_cancel]

theorem getLast?_window {n head count : Nat} (hc : 0 < count) (slots : Nat → α) :
    (window n slots head count).getLast? = some (slots ((head + count - 1) % n)) := by
  obtain ⟨m, rfl⟩ : ∃ m, count = m + 1 := ⟨count - 1, by omega⟩
  rw [window_succ, List.getLast?_concat]
  rfl

/-! ### Buffers without a count -/

/-- The number of slots from `head` up to `tail`. -/
def span (n head tail : Nat) : Nat := (tail + n - head) % n

private theorem span_eq {n head tail : Nat} (hh : head < n) (ht : tail < n) :
    span n head tail = if head ≤ tail then tail - head else tail + n - head := by
  unfold span
  split
  · rw [show tail + n - head = tail - head + n by omega, Nat.add_mod_right, Nat.mod_eq_of_lt (by omega)]
  · exact Nat.mod_eq_of_lt (by omega)

theorem next_eq {n i : Nat} (hi : i < n) : (i + 1) % n = if i + 1 = n then 0 else i + 1 := by
  split
  · rename_i h
    rw [h, Nat.mod_self]
  · exact Nat.mod_eq_of_lt (by omega)

theorem span_lt {n : Nat} (hn : 0 < n) (head tail : Nat) : span n head tail < n := Nat.mod_lt _ hn

theorem span_eq_zero_iff {n head tail : Nat} (hh : head < n) (ht : tail < n) :
    span n head tail = 0 ↔ head = tail := by
  rw [span_eq hh ht]
  split <;> omega

theorem add_span {n head tail : Nat} (hh : head < n) (ht : tail < n) : (head + span n head tail) % n = tail := by
  rw [span_eq hh ht]
  split
  · rw [show head + (tail - head) = tail by omega, Nat.mod_eq_of_lt ht]
  · rw [show head + (tail + n - head) = tail + n by omega, Nat.add_mod_right, Nat.mod_eq_of_lt ht]

/-- Moving the tail on makes the buffer one longer, or empty when the tail comes round to the head. -/
theorem span_push {n head tail : Nat} (hh : head < n) (ht : tail < n) :
    span n head ((tail + 1) % n) = if span n head tail + 1 = n then 0 else span n head tail + 1 := by
  rw [span_eq hh (Nat.mod_lt _ (by omega)), span_eq hh ht, next_eq ht]
  split <;> split <;> split <;> split <;> omega

theorem span_pop {n head tail : Nat} (hh : head < n) (ht : tail < n) (hne : head ≠ tail) :
    span n ((head + 1) % n) tail = span n head tail - 1 := by
  rw [span_eq (Nat.mod_lt _ (by omega)) ht, span_eq hh ht, next_eq hh]
  split <;> split <;> split <;> omega

end Zappy.RingBuffer

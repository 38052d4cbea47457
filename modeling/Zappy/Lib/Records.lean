import Mathlib.Data.List.Basic

/-!
# Reading from records

A reader over a queue of records: the rest of the record that was begun, and the records after it.  `skip n` is the
state after `n` items were taken, one after the other; a record is begun only when an item of it is taken.
-/

namespace Zappy.Records

variable {α : Type*}

/-- The rest of the record begun and the records after it, when `n` items are taken. -/
def skip : Nat → List α → List (List α) → List α × List (List α)
  | n, begun, [] => (begun.drop n, [])
  | n, begun, record :: rest =>
    if n ≤ begun.length then (begun.drop n, record :: rest) else skip (n - begun.length) record rest

theorem skip_of_le {n : Nat} {begun : List α} (h : n ≤ begun.length) (records : List (List α)) :
    skip n begun records = (begun.drop n, records) := by
  cases records with
  | nil => rfl
  | cons record rest => rw [skip, if_pos h]

theorem skip_of_lt {n : Nat} {begun : List α} (h : begun.length < n) (record : List α) (rest : List (List α)) :
    skip n begun (record :: rest) = skip (n - begun.length) record rest := by
  rw [skip, if_neg (Nat.not_le_of_lt h)]

@[simp] theorem skip_zero (begun : List α) (records : List (List α)) : skip 0 begun records = (begun, records) :=
  skip_of_le (Nat.zero_le _) records

/-- What is left is what follows the items taken. -/
theorem append_flatten_skip (n : Nat) (begun : List α) (records : List (List α)) :
    (skip n begun records).1 ++ (skip n begun records).2.flatten = (begun ++ records.flatten).drop n := by
  induction records generalizing n begun with
  | nil => simp [skip]
  | cons record rest ih =>
    by_cases hn : n ≤ begun.length
    · rw [skip_of_le hn, List.drop_append_of_le_length hn]
    · have hlt : begun.length < n := by omega
      have hdrop : (begun ++ (record ++ rest.flatten)).drop n = (record ++ rest.flatten).drop (n - begun.length) := by
        rw [List.drop_append, List.drop_eq_nil_of_le (Nat.le_of_lt hlt), List.nil_append]
      rw [skip_of_lt hlt, ih, List.flatten_cons, hdrop]

/-- Taking items in two goes. -/
theorem skip_skip (m n : Nat) (begun : List α) (records : List (List α)) :
    skip n (skip m begun records).1 (skip m begun records).2 = skip (m + n) begun records := by
  induction records generalizing m begun with
  | nil => simp [skip, List.drop_drop]
  | cons record rest ih =>
    by_cases hm : m ≤ begun.length
    · rw [skip_of_le hm]
      by_cases hn : m + n ≤ begun.length
      · have hrest : n ≤ (begun.drop m).length := by
          rw [List.length_drop]
          omega
        rw [skip_of_le hn]
        change skip n (begun.drop m) (record :: rest) = _
        rw [skip_of_le hrest, List.drop_drop]
      · have hrest : (begun.drop m).length < n := by
          rw [List.length_drop]
          omega
        change skip n (begun.drop m) (record :: rest) = _
        have hsum : n - (begun.length - m) = m + n - begun.length := by omega
        rw [skip_of_lt hrest, skip_of_lt (Nat.lt_of_not_le hn), List.length_drop, hsum]
    · have hsum : m - begun.length + n = m + n - begun.length := by omega
      rw [skip_of_lt (by omega), skip_of_lt (by omega), ih, hsum]

/-- The records that are not begun are the last ones. -/
theorem skip_suffix (n : Nat) (begun : List α) (records : List (List α)) : (skip n begun records).2 <:+ records := by
  induction records generalizing n begun with
  | nil => exact List.suffix_refl _
  | cons record rest ih =>
    by_cases hn : n ≤ begun.length
    · simp only [skip_of_le hn, List.suffix_refl]
    · rw [skip_of_lt (by omega)]
      exact (ih _ _).trans (List.suffix_cons record rest)

end Zappy.Records

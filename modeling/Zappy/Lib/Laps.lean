import Mathlib.Data.Int.CardIntervalMod

/-!
# A cursor that goes round a ring

The places that a cursor visits, one after the other, on a ring of `n` places.  A lap may be interrupted anywhere:
whoever remembers the place to go on from continues the same sequence, and no place falls more than one visit behind
another.
-/

namespace Zappy.Laps

variable {n : Nat}

/-- The first `k` visits. -/
def laps (n k : Nat) : List Nat := (List.range k).map (· % n)

@[simp] theorem length_laps (n k : Nat) : (laps n k).length = k := by
  simp [laps]

/-- Going on from the place after the first `k` visits. -/
theorem laps_add (n k m : Nat) : laps n (k + m) = laps n k ++ (List.range m).map fun i => (k % n + i) % n := by
  simp only [laps, List.range_add, List.map_append, List.map_map, Function.comp_def, Nat.mod_add_mod]

/-- Every place is visited once in each whole lap, and once more if the lap begun has come past it. -/
private theorem count_laps {t : Nat} (ht : t < n) (k : Nat) :
    (laps n k).count t = k / n + if t < k % n then 1 else 0 := by
  have hcount : (laps n k).count t = k.count (· ≡ t [MOD n]) := by
    simp only [laps, Nat.count, List.count, List.countP_map]
    refine List.countP_congr fun i _ => ?_
    simp only [Function.comp_apply, beq_iff_eq, decide_eq_true_eq, Nat.ModEq, Nat.mod_eq_of_lt ht]
  rw [hcount, Nat.count_modEq_card k (Nat.zero_lt_of_lt ht), Nat.mod_eq_of_lt ht]

/-- The visits of two places differ by one at most. -/
theorem laps_fair {t u : Nat} (ht : t < n) (hu : u < n) (k : Nat) :
    (laps n k).count t ≤ (laps n k).count u + 1 := by
  rw [count_laps ht, count_laps hu]
  split <;> split <;> omega

end Zappy.Laps

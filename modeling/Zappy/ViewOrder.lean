import Zappy.ElevationRules
import Mathlib.Data.List.Perm.Basic
import Mathlib.Tactic.Ring

/-!
# The order in which the client searches its view (`AI.java`)

`getViewIndicesSortedByDistance` lists the view row by row, each row from its centre outwards.  Row `r` has the
indexes from `r ^ 2` on, and what is at its end is `2 * r` steps away, more than the centre of the row after the next
for two rows and more.
-/

namespace Zappy

/-! ### The source -/

/-- One turn of the loop over the rows: the list and the running index. -/
def viewRow (st : List Int × Int) (l : Nat) : List Int × Int :=
  let rowSize := 2 * l + 1
  let rowStart := st.2
  let center := rowStart + (rowSize / 2 : Nat)
  (st.1 ++ center :: (List.range' 1 (rowSize / 2)).flatMap fun (offset : Nat) => [center - offset, center + offset],
    st.2 + rowSize)

/-- `getViewIndicesSortedByDistance`. -/
def getViewIndicesSortedByDistance (level : Nat) : List Int := ((List.range' 1 level).foldl viewRow ([0], 1)).1

/-- `curView.get(i)`; `none` for the exception. -/
def curViewGet (curView : List (List String)) (i : Int) : Option (List String) :=
  if i < 0 then none else curView[i.toNat]?

/-- The loop of `findItemInView`. -/
def findInOrder (curView : List (List String)) (item : Resource) : List Int → Option Int
  | [] => some (-1)
  | i :: sortedIndices =>
    (curViewGet curView i).bind fun tileContents =>
      if item.getName ∈ tileContents then some i else findInOrder curView item sortedIndices

/-- `findItemInView`; `none` for an exception. -/
def findItemInView (curView : List (List String)) (level : Nat) (item : Resource) : Option Int :=
  findInOrder curView item (getViewIndicesSortedByDistance level)

/-! ### Steps to a tile -/

/-- The row of a view index. -/
def viewRowOf (i : Int) : Nat := i.toNat.sqrt

/-- The distance from the centre of the row. -/
def viewOffset (i : Int) : Nat := (i - ((viewRowOf i) ^ 2 + viewRowOf i : Nat)).natAbs

/-- The number of steps to the tile. -/
def viewSteps (i : Int) : Nat := viewRowOf i + viewOffset i

/-- The tile contains the item. -/
def HasItem (curView : List (List String)) (item : Resource) (i : Int) : Prop :=
  ∃ contents, curViewGet curView i = some contents ∧ item.getName ∈ contents

/-- The result is an index with the item that no other beats, or -1 when there is none. -/
def FindsNearest (curView : List (List String)) (item : Resource) (result : Option Int) : Prop :=
  ∃ i, result = some i ∧ (i = -1 ↔ ∀ contents ∈ curView, item.getName ∉ contents) ∧
    (i ≠ -1 → HasItem curView item i ∧ ∀ j, HasItem curView item j → viewSteps i ≤ viewSteps j)

/-- The indexes of the view are listed by distance, and what is searched in this order is found where it is nearest. -/
structure SortedByDistance (level : Nat) : Prop where
  perm : (getViewIndicesSortedByDistance level).Perm ((List.range ((level + 1) ^ 2)).map Int.ofNat)
  sorted : (getViewIndicesSortedByDistance level).Pairwise fun i j => viewSteps i ≤ viewSteps j
  finds : ∀ curView item, curView.length = (level + 1) ^ 2 →
    FindsNearest curView item (findItemInView curView level item)

/-! ### The rows -/

/-- A centre and the indexes around it, up to the given offset. -/
def aroundCenter (center : Int) (n : Nat) : List Int :=
  center :: (List.range' 1 n).flatMap fun (offset : Nat) => [center - offset, center + offset]

private theorem viewRow_eq (indices : List Int) (l : Nat) :
    viewRow (indices, ((l ^ 2 : Nat) : Int)) l =
      (indices ++ aroundCenter (l ^ 2 + l : Nat) l, (((l + 1) ^ 2 : Nat) : Int)) := by
  have hhalf : (2 * l + 1) / 2 = l := by omega
  unfold viewRow aroundCenter
  simp only [hhalf]
  push_cast
  rw [Prod.mk.injEq]
  exact ⟨rfl, by ring⟩

private theorem viewRows_eq (level : Nat) :
    (List.range' 1 level).foldl viewRow ([0], 1) =
      ((List.range (level + 1)).flatMap fun l => aroundCenter (l ^ 2 + l : Nat) l,
        (((level + 1) ^ 2 : Nat) : Int)) := by
  induction level with
  | zero => rfl
  | succ level ih =>
    rw [List.range'_concat, List.foldl_concat, ih, Nat.one_mul, Nat.add_comm 1 level, viewRow_eq,
      List.range_succ (n := level + 1), List.flatMap_append, List.flatMap_singleton]

/-- The list goes through the rows. -/
private theorem getViewIndices_eq (level : Nat) : getViewIndicesSortedByDistance level =
    (List.range (level + 1)).flatMap fun l => aroundCenter (l ^ 2 + l : Nat) l := by
  unfold getViewIndicesSortedByDistance
  rw [viewRows_eq]

private theorem aroundCenter_succ (center : Int) (n : Nat) :
    aroundCenter center (n + 1) = aroundCenter center n ++ [center - (n + 1 : Nat), center + (n + 1 : Nat)] := by
  unfold aroundCenter
  rw [List.range'_concat, List.flatMap_append, List.flatMap_singleton, Nat.one_mul, Nat.add_comm 1 n]
  rfl

/-- The offsets up to `n` give the `2 * n + 1` indexes around the centre. -/
private theorem aroundCenter_perm (center : Int) (n : Nat) :
    (aroundCenter center n).Perm ((List.range (2 * n + 1)).map fun i : Nat => center - n + i) := by
  induction n with
  | zero => simp [aroundCenter]
  | succ n ih =>
    rw [aroundCenter_succ]
    -- the new indexes stand at both ends of the range
    have hends : (List.range (2 * (n + 1) + 1)).map (fun i : Nat => center - (n + 1 : Nat) + i) =
        (center - (n + 1 : Nat)) :: ((List.range (2 * n + 1)).map fun i : Nat => center - n + i) ++
          [center + (n + 1 : Nat)] := by
      have hsize : 2 * (n + 1) + 1 = 2 * n + 1 + 1 + 1 := by omega
      rw [hsize, List.range_succ, List.map_append, List.range_succ_eq_map, List.map_cons, List.map_map]
      congr 1
      · congr 1
        · simp
        · apply List.map_congr_left
          intro i _
          simp only [Function.comp_apply]
          push_cast
          ring
      · simp only [List.map_cons, List.map_nil]
        push_cast
        congr 1
        ring
    rw [hends]
    exact (ih.append_right _).trans List.perm_middle

private theorem row_perm (l : Nat) :
    (aroundCenter (l ^ 2 + l : Nat) l).Perm ((List.range (2 * l + 1)).map fun i => Int.ofNat (l ^ 2 + i)) := by
  have hmap : (List.range (2 * l + 1)).map (fun i : Nat => ((l ^ 2 + l : Nat) : Int) - l + i) =
      (List.range (2 * l + 1)).map fun i => Int.ofNat (l ^ 2 + i) := by
    apply List.map_congr_left
    intro i _
    rw [Int.ofNat_eq_natCast]
    push_cast
    ring
  exact hmap ▸ aroundCenter_perm _ l

/-- The odd sizes of the rows sum up to a square. -/
private theorem viewIndices_perm (level : Nat) :
    (getViewIndicesSortedByDistance level).Perm ((List.range ((level + 1) ^ 2)).map Int.ofNat) := by
  rw [getViewIndices_eq]
  generalize level + 1 = n
  induction n with
  | zero => simp
  | succ n ih =>
    have hsize : (n + 1) ^ 2 = n ^ 2 + (2 * n + 1) := by ring
    rw [List.range_succ, List.flatMap_append, List.flatMap_singleton, hsize, List.range_add, List.map_append,
      List.map_map]
    exact ih.append (row_perm n)

theorem mem_viewIndices {level : Nat} {i : Int} :
    i ∈ getViewIndicesSortedByDistance level ↔ 0 ≤ i ∧ i < ((level + 1) ^ 2 : Nat) := by
  rw [(viewIndices_perm level).mem_iff, List.mem_map]
  simp only [List.mem_range, Int.ofNat_eq_natCast]
  constructor
  · rintro ⟨k, hk, rfl⟩
    omega
  · rintro ⟨hlow, hhigh⟩
    exact ⟨i.toNat, by omega, by omega⟩

/-! ### The order -/

/-- Row by row, and in a row from the centre outwards. -/
def BeforeInView (i j : Int) : Prop :=
  viewRowOf i < viewRowOf j ∨ viewRowOf i = viewRowOf j ∧ viewOffset i ≤ viewOffset j

private theorem mem_aroundCenter {center i : Int} {n : Nat} :
    i ∈ aroundCenter center n ↔ (i - center).natAbs ≤ n := by
  rw [(aroundCenter_perm center n).mem_iff, List.mem_map]
  simp only [List.mem_range]
  constructor
  · rintro ⟨k, hk, rfl⟩
    omega
  · intro h
    exact ⟨(i - center + n).toNat, by omega, by omega⟩

/-- The indexes around the centre of row `l` are in row `l`. -/
private theorem viewRowOf_eq {i : Int} {l : Nat} (h : (i - (l ^ 2 + l : Nat)).natAbs ≤ l) :
    viewRowOf i = l ∧ viewOffset i = (i - (l ^ 2 + l : Nat)).natAbs := by
  have hrow : viewRowOf i = l := by
    unfold viewRowOf
    have hlow : l * l ≤ i.toNat := by
      rw [← Nat.pow_two]
      omega
    have hhigh : i.toNat < (l + 1) * (l + 1) := by
      have hsquare : (l + 1) * (l + 1) = l ^ 2 + 2 * l + 1 := by ring
      omega
    exact (Nat.eq_sqrt.2 ⟨hlow, hhigh⟩).symm
  refine ⟨hrow, ?_⟩
  unfold viewOffset
  rw [hrow]

private theorem row_pairwise (center : Int) (n : Nat) :
    (aroundCenter center n).Pairwise fun i j => (i - center).natAbs ≤ (j - center).natAbs := by
  induction n with
  | zero => exact List.pairwise_singleton _ _
  | succ n ih =>
    rw [aroundCenter_succ, List.pairwise_append]
    refine ⟨ih, ?_, ?_⟩
    · rw [List.pairwise_pair]
      omega
    · intro i hi j hj
      have hle := mem_aroundCenter.1 hi
      simp only [List.mem_cons, List.not_mem_nil, or_false] at hj
      rcases hj with rfl | rfl <;> omega

private theorem viewIndices_pairwise (level : Nat) : (getViewIndicesSortedByDistance level).Pairwise BeforeInView := by
  rw [getViewIndices_eq, List.pairwise_flatMap]
  constructor
  · intro l _
    refine (row_pairwise _ l).imp_of_mem fun hi hj hle => ?_
    obtain ⟨hrow, hoffset⟩ := viewRowOf_eq (mem_aroundCenter.1 hi)
    obtain ⟨hrow', hoffset'⟩ := viewRowOf_eq (mem_aroundCenter.1 hj)
    exact Or.inr ⟨hrow.trans hrow'.symm, by omega⟩
  · refine List.pairwise_lt_range.imp fun hlt i hi j hj => Or.inl ?_
    rw [(viewRowOf_eq (mem_aroundCenter.1 hi)).1, (viewRowOf_eq (mem_aroundCenter.1 hj)).1]
    exact hlt

private theorem viewOffset_le {level : Nat} {i : Int} (h : i ∈ getViewIndicesSortedByDistance level) :
    viewRowOf i ≤ level ∧ viewOffset i ≤ viewRowOf i := by
  rw [getViewIndices_eq, List.mem_flatMap] at h
  obtain ⟨l, hl, hi⟩ := h
  obtain ⟨hrow, hoffset⟩ := viewRowOf_eq (mem_aroundCenter.1 hi)
  have hle := mem_aroundCenter.1 hi
  rw [List.mem_range] at hl
  omega

/-- Up to the second row, the end of a row is no farther away than the centre of the next. -/
private theorem viewIndices_sorted {level : Nat} (h : level ≤ 2) :
    (getViewIndicesSortedByDistance level).Pairwise fun i j => viewSteps i ≤ viewSteps j := by
  refine (viewIndices_pairwise level).imp_of_mem fun hi hj hbefore => ?_
  have hi := viewOffset_le hi
  have hj := viewOffset_le hj
  unfold viewSteps
  rcases hbefore with hlt | ⟨heq, hle⟩ <;> omega

/-- The centre of the third row is nearer than the end of the second. -/
private theorem viewSteps_four : viewSteps 12 < viewSteps 4 := by
  have hfour : ((4 : Int) - (2 ^ 2 + 2 : Nat)).natAbs ≤ 2 := by decide
  have htwelve : ((12 : Int) - (3 ^ 2 + 3 : Nat)).natAbs ≤ 3 := by decide
  obtain ⟨hrow, hoffset⟩ := viewRowOf_eq hfour
  obtain ⟨hrow', hoffset'⟩ := viewRowOf_eq htwelve
  unfold viewSteps
  rw [hrow, hoffset, hrow', hoffset']
  decide

private theorem not_viewIndices_sorted {level : Nat} (h : 2 < level) :
    ¬ (getViewIndicesSortedByDistance level).Pairwise fun i j => viewSteps i ≤ viewSteps j := by
  intro hsorted
  obtain ⟨n, rfl⟩ : ∃ n, level = 3 + n := ⟨level - 3, by omega⟩
  rw [getViewIndices_eq, Nat.add_assoc, List.range_add, List.flatMap_append, List.pairwise_append] at hsorted
  have hfour : (4 : Int) ∈ (List.range 3).flatMap fun l => aroundCenter (l ^ 2 + l : Nat) l := by decide
  have htwelve : (12 : Int) ∈ ((List.range (n + 1)).map (3 + ·)).flatMap fun l => aroundCenter (l ^ 2 + l : Nat) l :=
    List.mem_flatMap.2 ⟨3, List.mem_map.2 ⟨0, List.mem_range.2 (Nat.succ_pos n), rfl⟩, by decide⟩
  exact absurd (hsorted.2.2 4 hfour 12 htwelve) (Nat.not_le_of_lt viewSteps_four)

/-! ### The search -/

variable {curView : List (List String)} {item : Resource}

private theorem curViewGet_eq_some {i : Int} {contents : List String} (h : curViewGet curView i = some contents) :
    0 ≤ i ∧ i < curView.length ∧ contents ∈ curView := by
  unfold curViewGet at h
  split at h
  · cases h
  · obtain ⟨hlt, hget⟩ := List.getElem?_eq_some_iff.1 h
    exact ⟨by omega, by omega, hget ▸ List.getElem_mem hlt⟩

theorem curViewGet_isSome {i : Int} (hlow : 0 ≤ i) (hhigh : i < curView.length) :
    ∃ contents, curViewGet curView i = some contents := by
  have hlt : i.toNat < curView.length := by omega
  unfold curViewGet
  rw [if_neg (by omega)]
  exact ⟨_, List.getElem?_eq_getElem hlt⟩

/-- The search returns the first index in the order that shows the item. -/
private theorem findInOrder_spec (item : Resource) {order : List Int}
    (h : ∀ i ∈ order, ∃ contents, curViewGet curView i = some contents) :
    (findInOrder curView item order = some (-1) ∧ ∀ i ∈ order, ¬ HasItem curView item i) ∨
      ∃ before i after, order = before ++ i :: after ∧ findInOrder curView item order = some i ∧
        HasItem curView item i ∧ ∀ j ∈ before, ¬ HasItem curView item j := by
  induction order with
  | nil => exact Or.inl ⟨rfl, fun i hi => absurd hi List.not_mem_nil⟩
  | cons i order ih =>
    obtain ⟨contents, htile⟩ := h i List.mem_cons_self
    have hshows : HasItem curView item i ↔ item.getName ∈ contents := by
      unfold HasItem
      rw [htile]
      simp
    rw [findInOrder, htile, Option.bind_some]
    by_cases hmem : item.getName ∈ contents
    · rw [if_pos hmem]
      exact Or.inr ⟨[], i, order, rfl, rfl, hshows.2 hmem, fun j hj => absurd hj List.not_mem_nil⟩
    rw [if_neg hmem]
    have hno : ¬ HasItem curView item i := fun hs => hmem (hshows.1 hs)
    rcases ih fun j hj => h j (List.mem_cons_of_mem _ hj) with ⟨hnone, hall⟩ |
      ⟨before, k, after, rfl, hfind, hk, hall⟩
    · refine Or.inl ⟨hnone, fun j hj => ?_⟩
      rcases List.mem_cons.1 hj with rfl | hj
      · exact hno
      · exact hall j hj
    · refine Or.inr ⟨i :: before, k, after, rfl, hfind, hk, fun j hj => ?_⟩
      rcases List.mem_cons.1 hj with rfl | hj
      · exact hno
      · exact hall j hj

/-- An index that shows the item, if there is one, which comes no later in the order than any other. -/
theorem findItemInView_first {level : Nat} {R : Int → Int → Prop} (hrefl : ∀ i, R i i)
    (horder : (getViewIndicesSortedByDistance level).Pairwise R) (hsize : curView.length = (level + 1) ^ 2) :
    ∃ i, findItemInView curView level item = some i ∧ (i = -1 ↔ ∀ contents ∈ curView, item.getName ∉ contents) ∧
      (i ≠ -1 → HasItem curView item i ∧ ∀ j, HasItem curView item j → R i j) := by
  have htiles : ∀ i ∈ getViewIndicesSortedByDistance level, ∃ contents, curViewGet curView i = some contents := by
    intro i hi
    obtain ⟨hlow, hhigh⟩ := mem_viewIndices.1 hi
    exact curViewGet_isSome hlow (hsize ▸ hhigh)
  have hlisted : ∀ j, HasItem curView item j → j ∈ getViewIndicesSortedByDistance level := by
    rintro j ⟨contents, htile, -⟩
    obtain ⟨hlow, hhigh, -⟩ := curViewGet_eq_some htile
    exact mem_viewIndices.2 ⟨hlow, hsize ▸ hhigh⟩
  rcases findInOrder_spec item htiles with ⟨hnone, hall⟩ |
    ⟨before, i, after, hsplit, hfind, hshows, hbefore⟩
  · refine ⟨-1, hnone, ⟨fun _ contents hmem hitem => ?_, fun _ => rfl⟩, fun hne => absurd rfl hne⟩
    obtain ⟨k, hk, hget⟩ := List.mem_iff_getElem.1 hmem
    have htile : curViewGet curView (k : Int) = some contents := by
      unfold curViewGet
      rw [if_neg (by omega), Int.toNat_natCast, List.getElem?_eq_getElem hk, hget]
    exact hall k (hlisted k ⟨contents, htile, hitem⟩) ⟨contents, htile, hitem⟩
  · obtain ⟨contents, htile, hitem⟩ := hshows
    obtain ⟨hlow, -, hmem⟩ := curViewGet_eq_some htile
    refine ⟨i, hfind, ⟨fun hneg => ?_, fun hno => absurd hitem (hno contents hmem)⟩, fun _ =>
      ⟨⟨contents, htile, hitem⟩, fun j hj => ?_⟩⟩
    · omega
    · have hj' := hlisted j hj
      rw [hsplit] at hj' horder
      rcases List.mem_append.1 hj' with hin | hin
      · exact absurd hj (hbefore j hin)
      · rcases List.mem_cons.1 hin with rfl | hin
        · exact hrefl j
        · exact (List.pairwise_cons.1 (List.pairwise_append.1 horder).2.1).1 j hin

/-- The indexes are listed by distance, and the nearest item is found, exactly on the levels up to two. -/
theorem sorted_by_distance_iff (level : Nat) : SortedByDistance level ↔ level ≤ 2 := by
  constructor
  · intro h
    by_contra hlevel
    exact not_viewIndices_sorted (Nat.lt_of_not_le hlevel) h.sorted
  · intro hlevel
    have hsorted := viewIndices_sorted hlevel
    exact ⟨viewIndices_perm level, hsorted, fun curView item hsize =>
      findItemInView_first (fun i => Nat.le_refl (viewSteps i)) hsorted hsize⟩

/-- On every level what is found is first row by row, in its row nearest to the centre. -/
theorem findItemInView_rowFirst {level : Nat} (hsize : curView.length = (level + 1) ^ 2) :
    ∃ i, findItemInView curView level item = some i ∧ (i = -1 ↔ ∀ contents ∈ curView, item.getName ∉ contents) ∧
      (i ≠ -1 → HasItem curView item i ∧ ∀ j, HasItem curView item j → BeforeInView i j) :=
  findItemInView_first (fun _ => Or.inr ⟨rfl, Nat.le_refl _⟩) (viewIndices_pairwise level) hsize

/-- A view of level three, with the item at the end of the second row and in the centre of the third. -/
def twoStones : List (List String) := ((List.replicate 16 []).set 4 ["linemate"]).set 12 ["linemate"]

/-- On level three the farther of the two is found. -/
theorem farther_stone_found :
    ¬ SortedByDistance 3 ∧ ¬ FindsNearest twoStones .linemate (findItemInView twoStones 3 .linemate) := by
  have hfound : findItemInView twoStones 3 .linemate = some 4 := by decide +kernel
  have hnot : ¬ FindsNearest twoStones .linemate (findItemInView twoStones 3 .linemate) := by
    rintro ⟨i, hi, -, hnearest⟩
    obtain rfl : 4 = i := Option.some.inj (hfound.symm.trans hi)
    have htwelve : HasItem twoStones .linemate 12 := ⟨["linemate"], by decide, by decide⟩
    exact absurd ((hnearest (by decide)).2 12 htwelve) (Nat.not_le_of_lt viewSteps_four)
  exact ⟨fun h => hnot (h.finds twoStones .linemate (by decide)), hnot⟩

end Zappy

import Zappy.Sightings
import Zappy.Moves
import Zappy.JavaClient
import Mathlib.Data.Nat.Sqrt
import Mathlib.Tactic.IntervalCases
import Mathlib.Tactic.Linarith

/-!
# The way to a tile of the view (`getMovesToTile`)

The client numbers the tiles as `voir` does: row `r` has the indices from `r²` to `(r + 1)² - 1`.  The loop of
`getMovesToTile` is to find the row of an index, but it compares the index with the length of the row and not with
its last index, so it goes on to row `n / 2`.  Coordinates and indices are unbounded; the loop's sums fit an `int`
up to index 92 681.
-/

namespace Zappy

open Turtle Run Traverse

/-! ### The code -/

/-- `while (2 * level + 1 < tileIdx) { leftIdx += 2 * level + 1; level++; }`: `level` and `leftIdx` after it. -/
def seekRow (tileIdx level leftIdx : Int) : Int × Int :=
  if 2 * level + 1 < tileIdx then seekRow tileIdx (level + 1) (leftIdx + (2 * level + 1)) else (level, leftIdx)
termination_by (tileIdx - 2 * level).toNat

/-- The common body of the two methods, over the type of the moves. -/
def movesToTile {μ : Type} (avance gauche droite : μ) (tileIdx : Int) : List μ :=
  if tileIdx ≤ 0 then []
  else
    let row := seekRow tileIdx 1 1
    let center := row.2 + row.1
    let offset := tileIdx - center
    List.replicate row.1.toNat avance ++
      (if offset < 0 then [gauche] else if offset > 0 then [droite] else []) ++
      List.replicate offset.natAbs avance

/-- `AI.getMovesToTile`. -/
def AI.getMovesToTile : Int → List CommandType := movesToTile .avance .gauche .droite

/-- `World.getMovesToTile`. -/
def World.getMovesToTile : Int → List String := movesToTile "avance" "gauche" "droite"

/-- The two methods name the same moves. -/
private theorem getMovesToTile_names (tileIdx : Int) :
    World.getMovesToTile tileIdx = (AI.getMovesToTile tileIdx).map CommandType.getName := by
  unfold World.getMovesToTile AI.getMovesToTile movesToTile
  split
  · rfl
  · simp only [List.map_append, List.map_replicate]
    congr 2
    split
    · rfl
    · split <;> rfl

/-! ### Where the moves lead -/

/-- From row `level` on, the loop comes to row `n / 2`. -/
private theorem seekRow_eq (n level : Nat) : seekRow n level ((level * level : Nat) : Int) =
    (((max level (n / 2) : Nat) : Int), ((max level (n / 2) * max level (n / 2) : Nat) : Int)) := by
  induction hk : n / 2 - level generalizing level with
  | zero =>
    have hmax : max level (n / 2) = level := by omega
    rw [seekRow, if_neg (by omega), hmax]
  | succ k ih =>
    have hmax : max (level + 1) (n / 2) = max level (n / 2) := by omega
    have hnext : ((level * level : Nat) : Int) + (2 * (level : Int) + 1) =
        (((level + 1) * (level + 1) : Nat) : Int) := by
      push_cast
      ring
    have hrest := ih (level + 1) (by omega)
    rw [hmax] at hrest
    rw [seekRow, if_pos (by omega), hnext]
    exact hrest

/-- The row that `getMovesToTile` goes to. -/
def foundRow (n : Nat) : Nat := if n = 0 then 0 else max 1 (n / 2)

/-- How far to the right it goes from the middle of that row. -/
def foundOffset (n : Nat) : Int := n - (foundRow n * foundRow n + foundRow n : Nat)

/-- The moves of the walk. -/
def tileWalk (n : Nat) : List Move :=
  List.replicate (foundRow n) .forward ++
    (if foundOffset n < 0 then [.left] else if foundOffset n > 0 then [.right] else []) ++
    List.replicate (foundOffset n).natAbs .forward

private theorem getMovesToTile_moves (n : Nat) : (AI.getMovesToTile n).mapM CommandType.move? = some (tileWalk n) := by
  unfold AI.getMovesToTile movesToTile tileWalk
  by_cases hn : n = 0
  · subst hn
    rfl
  · have hrow : foundRow n = max 1 (n / 2) := if_neg hn
    have hseek : seekRow n 1 1 = ((foundRow n : Int), ((foundRow n * foundRow n : Nat) : Int)) := by
      rw [hrow]
      exact seekRow_eq n 1
    have hoffset : (n : Int) - (((foundRow n * foundRow n : Nat) : Int) + (foundRow n : Int)) = foundOffset n := by
      unfold foundOffset
      push_cast
      ring
    rw [if_neg (by omega), hseek]
    dsimp only
    rw [hoffset, Int.toNat_natCast]
    simp only [List.mapM_append, mapM_replicate_some (show CommandType.move? .avance = some .forward from rfl)]
    split
    · rfl
    · split <;> rfl

variable {width height : Nat}

/-- The walk goes `foundRow` steps ahead and `foundOffset` steps to the right. -/
private theorem walk_tileWalk (place : ZMod width × ZMod height) (dir : Direction) (n : Nat) :
    ((torusFrame width height).walk ⟨place, dir⟩ (tileWalk n)).place =
      place + (foundRow n : Int) • (torusFrame width height).step dir +
        foundOffset n • (torusFrame width height).step (turnRight dir) := by
  have hleft : (torusFrame width height).step (turnLeft dir) = -(torusFrame width height).step (turnRight dir) := by
    cases dir <;> simp [torusFrame, turnLeft, turnRight]
  have hahead : (torusFrame width height).walk ⟨place, dir⟩ (List.replicate (foundRow n) .forward) =
      ⟨place + foundRow n • (torusFrame width height).step dir, dir⟩ := walk_forward _ _
  unfold tileWalk
  rw [walk_append, walk_append, hahead, natCast_zsmul]
  generalize place + foundRow n • (torusFrame width height).step dir = middle
  by_cases hneg : foundOffset n < 0
  · have habs : foundOffset n = -((foundOffset n).natAbs : Int) := by omega
    rw [if_pos hneg, walk_cons, walk_nil, walk_forward]
    change middle + _ • (torusFrame width height).step (turnLeft dir) = _
    rw [hleft, habs, Int.natAbs_neg, Int.natAbs_natCast, neg_smul, natCast_zsmul, smul_neg]
  · by_cases hpos : foundOffset n > 0
    · have habs : foundOffset n = ((foundOffset n).natAbs : Int) := by omega
      rw [if_neg hneg, if_pos hpos, walk_cons, walk_nil, walk_forward]
      change middle + _ • (torusFrame width height).step (turnRight dir) = _
      rw [habs, Int.natAbs_natCast, natCast_zsmul]
    · have hzero : foundOffset n = 0 := by omega
      rw [if_neg hneg, if_neg hpos, hzero]
      simp

/-! ### Where the view is -/

/-- The place of index `n` is in the row of the root of `n`. -/
private theorem rows_getElem? (k n : Nat) (hn : n < k ^ 2) :
    ((List.range k).flatMap fun d => (List.range (2 * d + 1)).map fun i => (d, i))[n]? =
      some (Nat.sqrt n, n - Nat.sqrt n ^ 2) := by
  induction k with
  | zero => simp at hn
  | succ k ih =>
    rw [List.range_succ, List.flatMap_append]
    by_cases hlt : n < k ^ 2
    · rw [List.getElem?_append_left (by rwa [length_rows])]
      exact ih hlt
    · have hroot : Nat.sqrt n = k := by
        refine le_antisymm (Nat.lt_succ_iff.1 (Nat.sqrt_lt'.2 hn)) (Nat.le_sqrt'.2 ?_)
        omega
      have hlast : n - k ^ 2 < 2 * k + 1 := by
        have hsq : (k + 1) ^ 2 = k ^ 2 + (2 * k + 1) := by ring
        omega
      rw [List.getElem?_append_right (by rw [length_rows]; omega), length_rows, hroot]
      simp only [List.flatMap_cons, List.flatMap_nil, List.append_nil, List.getElem?_map]
      rw [List.getElem?_range hlast]
      rfl

/-- The tile of a place of the view, on the torus. -/
private theorem viewTile_onTorus {s : Server} (hx : 0 < s.mapX) (hy : 0 < s.mapY) (pl : Player) (d i : Nat) :
    (viewTile s pl (d, i)).onTorus s.mapX s.mapY = pl.pos.onTorus s.mapX s.mapY +
      (d : Int) • (torusFrame s.mapX s.mapY).step pl.dir +
        ((i : Int) - d) • (torusFrame s.mapX s.mapY).step (turnRight pl.dir) := by
  obtain ⟨htx, hty⟩ := viewTile_eq hx hy pl (d, i)
  have hcastX : ((viewTile s pl (d, i)).x : ZMod s.mapX) = ((viewPosition pl d i).1 : ZMod s.mapX) := by
    rw [← Int.cast_natCast, htx, ZMod.intCast_mod]
  have hcastY : ((viewTile s pl (d, i)).y : ZMod s.mapY) = ((viewPosition pl d i).2 : ZMod s.mapY) := by
    rw [← Int.cast_natCast, hty, ZMod.intCast_mod]
  unfold Position.onTorus
  rw [hcastX, hcastY]
  unfold viewPosition
  cases pl.dir
  all_goals
    simp only [torusFrame, turnRight, Prod.smul_mk, Prod.mk_add_mk, Prod.mk.injEq, smul_zero, smul_neg, zsmul_one]
    push_cast
    constructor <;> ring

/-! ### Where both meet -/

/-- The size of the map along a facing. -/
def Server.sizeAhead (s : Server) : Direction → Nat
  | .north | .south => s.mapY
  | .east | .west => s.mapX

/-- The size of the map across a facing. -/
def Server.sizeAside (s : Server) (dir : Direction) : Nat := s.sizeAhead (turnRight dir)

/-- Two ways to go ahead and then aside lead to one place. -/
private theorem ahead_aside_iff (s : Server) (place : ZMod s.mapX × ZMod s.mapY) (dir : Direction) (a b a' b' : Int) :
    place + a • (torusFrame s.mapX s.mapY).step dir + b • (torusFrame s.mapX s.mapY).step (turnRight dir) =
        place + a' • (torusFrame s.mapX s.mapY).step dir + b' • (torusFrame s.mapX s.mapY).step (turnRight dir) ↔
      (s.sizeAhead dir : Int) ∣ a - a' ∧ (s.sizeAside dir : Int) ∣ b - b' := by
  have hcast : ∀ (m : Nat) (u v : Int), (u : ZMod m) = (v : ZMod m) ↔ (m : Int) ∣ u - v := fun m u v =>
    (ZMod.intCast_eq_intCast_iff_dvd_sub u v m).trans dvd_sub_comm
  rw [add_assoc, add_assoc, add_left_cancel_iff]
  cases dir
  all_goals
    simp only [torusFrame, turnRight, Server.sizeAhead, Server.sizeAside, Prod.smul_mk, Prod.mk_add_mk,
      Prod.mk.injEq, smul_zero, smul_neg, zsmul_one, add_zero, zero_add, neg_inj, hcast]
  case north => exact and_comm
  case south => exact and_comm

/-- Up to index 5 the loop stops in the right row, from there on in row `n / 2`. -/
private theorem foundRow_cases (n : Nat) : n ≤ 5 ∧ foundRow n = Nat.sqrt n ∨ 6 ≤ n ∧ foundRow n = n / 2 := by
  by_cases hn : n ≤ 5
  · refine Or.inl ⟨hn, Nat.eq_sqrt.2 ?_⟩
    interval_cases n <;> decide
  · refine Or.inr ⟨by omega, ?_⟩
    rw [foundRow, if_neg (by omega)]
    omega

/-- The loop stops in the right row, or else the row `n / 2` has its middle where the right row has it on the torus. -/
def SameMiddle (s : Server) (dir : Direction) (n : Nat) : Prop :=
  n ≤ 5 ∨ s.sizeAhead dir ∣ n / 2 - Nat.sqrt n ∧
    s.sizeAside dir ∣ n / 2 * (n / 2 + 1) - Nat.sqrt n * (Nat.sqrt n + 1)

private theorem sameMiddle_iff (s : Server) (dir : Direction) (n : Nat) : SameMiddle s dir n ↔
    (s.sizeAhead dir : Int) ∣ (foundRow n : Int) - Nat.sqrt n ∧
      (s.sizeAside dir : Int) ∣ foundOffset n - (((n - Nat.sqrt n ^ 2 : Nat) : Int) - Nat.sqrt n) := by
  have hsq : Nat.sqrt n ^ 2 ≤ n := Nat.sqrt_le' n
  have haside : foundOffset n - (((n - Nat.sqrt n ^ 2 : Nat) : Int) - Nat.sqrt n) =
      ((Nat.sqrt n * (Nat.sqrt n + 1) : Nat) : Int) - ((foundRow n * (foundRow n + 1) : Nat) : Int) := by
    rw [foundOffset, Nat.cast_sub hsq]
    push_cast
    ring
  rw [haside]
  obtain ⟨hn, hrow⟩ | ⟨hn, hrow⟩ := foundRow_cases n
  · rw [hrow, sub_self, sub_self]
    exact iff_of_true (Or.inl hn) ⟨dvd_zero _, dvd_zero _⟩
  · have hroot : Nat.sqrt n ≤ n / 2 := by
      rw [← Nat.lt_succ_iff, Nat.sqrt_lt']
      have hhalf : n < 2 * (n / 2 + 1) := by omega
      have hthree : 3 ≤ n / 2 := by omega
      nlinarith
    have hmiddle : Nat.sqrt n * (Nat.sqrt n + 1) ≤ n / 2 * (n / 2 + 1) := by gcongr
    rw [hrow, dvd_sub_comm (a := ((s.sizeAside dir : Nat) : Int)), ← Nat.cast_sub hroot, ← Nat.cast_sub hmiddle,
      Int.natCast_dvd_natCast, Int.natCast_dvd_natCast]
    constructor
    · rintro (h | h)
      · omega
      · exact h
    · exact Or.inr

/-! ### The moves of a player -/

/-- In every state that a run of the game reaches, for each level and each index of the view at that level, a
player that executes the moves to the index comes to the tile that the answer to `voir` describes there exactly if the
index is at most 5 or the middle of row `n / 2` is the middle of the right row on the torus. -/
theorem moves_to_tile_iff (cfg : Config) {width height : Nat} (hw : 0 < width) (hh : 0 < height)
    (teams : List String) (nbClients : Nat) (counts : Nat → InventoryType → Nat) (as : List GameAction) {s : Server}
    (h : run (gameStep cfg) (gameInit cfg width height teams nbClients counts) as = some s) (chance : Chance)
    {p : Addr} {pl : Player} (hpl : s.playerHeap p = some pl) (level : Int) (n : Nat) {tile : Position}
    (htile : (visionTiles s { pl with level := level })[n]? = some tile) :
    World.getMovesToTile n = (AI.getMovesToTile n).map CommandType.getName ∧
      DescribesAt s { pl with level := level } n tile ∧
      ∃ s' pl', executeMoves cfg chance s p (AI.getMovesToTile n) = some s' ∧ s'.playerHeap p = some pl' ∧
        (pl'.pos = tile ↔ SameMiddle s pl.dir n) := by
  obtain ⟨-, hp⟩ := placed_of_run hw hh h
  obtain ⟨hx, hy⟩ := hp.size_pos hpl
  obtain ⟨s', pl', hexec, hpl', hpose, hp'⟩ := executeMoves_walk cfg chance hp hpl (getMovesToTile_moves n)
  refine ⟨getMovesToTile_names n, describesAt hx hy htile, s', pl', hexec, hpl', ?_⟩
  have hview : tile = viewTile s pl (Nat.sqrt n, n - Nat.sqrt n ^ 2) := by
    rw [visionTiles, List.getElem?_map, Option.map_eq_some_iff] at htile
    obtain ⟨place, hplace, rfl⟩ := htile
    have hlt := (List.getElem?_eq_some_iff.1 hplace).1
    rw [viewPlaces, length_rows] at hlt
    rw [viewPlaces, rows_getElem? _ _ hlt, Option.some.injEq] at hplace
    rw [← hplace]
    rfl
  have hon : s.OnMap tile := hview ▸ onMap_viewTile hx hy pl _
  have hon' := hp'.onMap hpl'
  have hplace := congrArg Pose.place hpose
  have hX : s'.mapX = s.mapX := hp'.mapX.trans hp.mapX.symm
  have hY : s'.mapY = s.mapY := hp'.mapY.trans hp.mapY.symm
  obtain ⟨hx', hy'⟩ := hon'
  rw [hX] at hx'
  rw [hY] at hy'
  rw [← hp.mapX, ← hp.mapY] at hplace
  change pl'.pos.onTorus s.mapX s.mapY = _ at hplace
  rw [sameMiddle_iff, ← ahead_aside_iff s (pl.pos.onTorus s.mapX s.mapY), ← onTorus_inj hx' hy' hon.1 hon.2, hplace,
    hview, viewTile_onTorus hx hy]
  rw [← walk_tileWalk]
  rfl

/-- A player of level 1 goes to the third place of the row in front of it. -/
theorem moves_to_tile_iff_front : ∃ (s : Server) (pl : Player), run (gameStep shippedConfig)
      (gameInit shippedConfig 3 3 ["red"] 2 fun _ _ => 0) [.register 0 4 "red" ⟨0, 2, 1⟩] = some s ∧
    s.playerHeap 1 = some pl ∧ (visionTiles s { pl with level := 1 })[3]? = some ⟨1, 0⟩ ∧
    DescribesAt s { pl with level := 1 } 3 ⟨1, 0⟩ ∧
    ∃ s' pl', executeMoves shippedConfig {} s 1 (AI.getMovesToTile 3) = some s' ∧ s'.playerHeap 1 = some pl' ∧
      (pl'.pos = ⟨1, 0⟩ ↔ SameMiddle s pl.dir 3) := by
  have hrun : ((run (gameStep shippedConfig) (gameInit shippedConfig 3 3 ["red"] 2 fun _ _ => 0)
      [.register 0 4 "red" ⟨0, 2, 1⟩]).bind fun s => (s.playerHeap 1).map fun pl =>
        (visionTiles s { pl with level := 1 })[3]?) = some (some ⟨1, 0⟩) := by decide +kernel
  obtain ⟨s, hs, hmap⟩ := Option.bind_eq_some_iff.1 hrun
  obtain ⟨pl, hpl, htile⟩ := Option.map_eq_some_iff.1 hmap
  exact ⟨s, pl, hs, hpl, htile,
    (moves_to_tile_iff shippedConfig (by decide) (by decide) _ _ _ _ hs {} hpl 1 3 htile).2⟩

/-- A player of level 2 at the corner of a map of nine tiles sets out for index 6, the middle of the second row, and
comes back to the corner. -/
theorem moves_to_middle_miss : ∃ (s : Server) (pl : Player), run (gameStep shippedConfig)
      (gameInit shippedConfig 3 3 ["red"] 2 fun _ _ => 2) elevation = some s ∧
    s.playerHeap 3 = some pl ∧ pl.level = 2 ∧ (visionTiles s pl)[6]? = some ⟨0, 1⟩ ∧ DescribesAt s pl 6 ⟨0, 1⟩ ∧
    ∃ s' pl', executeMoves shippedConfig {} s 3 (AI.getMovesToTile 6) = some s' ∧ s'.playerHeap 3 = some pl' ∧
      pl'.pos = ⟨0, 0⟩ := by
  have hmoves : AI.getMovesToTile 6 = List.replicate 3 .avance ++ .gauche :: List.replicate 6 .avance := by
    simp [AI.getMovesToTile, movesToTile, seekRow, List.replicate]
  rw [hmoves]
  have hrun : ((run (gameStep shippedConfig) (gameInit shippedConfig 3 3 ["red"] 2 fun _ _ => 2) elevation).bind
      fun s => (s.playerHeap 3).bind fun pl =>
        (executeMoves shippedConfig {} s 3 (List.replicate 3 .avance ++ .gauche :: List.replicate 6 .avance)).bind
          fun s' => (s'.playerHeap 3).map fun pl' => (pl.level, (visionTiles s pl)[6]?, pl'.pos)) =
      some (2, some ⟨0, 1⟩, ⟨0, 0⟩) := by decide +kernel
  obtain ⟨s, hs, hmap⟩ := Option.bind_eq_some_iff.1 hrun
  obtain ⟨pl, hpl, hmap⟩ := Option.bind_eq_some_iff.1 hmap
  obtain ⟨s', hs', hmap⟩ := Option.bind_eq_some_iff.1 hmap
  obtain ⟨pl', hpl', hfacts⟩ := Option.map_eq_some_iff.1 hmap
  simp only [Prod.mk.injEq] at hfacts
  obtain ⟨-, hp⟩ := placed_of_run (by decide) (by decide) hs
  obtain ⟨hx, hy⟩ := hp.size_pos hpl
  exact ⟨s, pl, hs, hpl, hfacts.1, hfacts.2.1, describesAt hx hy hfacts.2.1, s', pl', hs', hpl', hfacts.2.2⟩

end Zappy

import Zappy.ElevationRules
import Zappy.Lib.Traverse

/-!
# What a player sees, on both sides (`game.c`, `World.java`)

The server answers `voir` with one entry a tile, row by row from the player on; the client turns the number of an
entry into an offset for a player that faces north, rotates it, and overwrites the tile of its own map there.  The
server brings coordinates back on the map with `wrap`, the client with two signed remainders.  Coordinates are
unbounded: both programs hold a record for every tile of the map.
-/

namespace Zappy

open Traverse

/-! ### The server's view -/

/-- The rows and places that `m_command_voir` goes through. -/
def viewPlaces (level : Int) : List (Nat × Nat) :=
  (List.range (level + 1).toNat).flatMap fun d => (List.range (2 * d + 1)).map fun i => (d, i)

/-- The tile at a place of the view, on the map. -/
def viewTile (s : Server) (pl : Player) (place : Nat × Nat) : Position :=
  let rel := viewPosition pl place.1 place.2
  ⟨(wrap rel.1 s.mapX).toNat, (wrap rel.2 s.mapY).toNat⟩

/-- The tiles that the entries of the vision describe. -/
def visionTiles (s : Server) (pl : Player) : List Position := (viewPlaces pl.level).map (viewTile s pl)

/-- The entries of the vision. -/
def visionOf (s : Server) (pl : Player) : Option (List (List String)) :=
  (visionTiles s pl).mapM fun pos => buildTileVision s (s.map (s.mapIndex pos)) pl

theorem commandVoir_eq (s : Server) (pl : Player) : commandVoir s pl = (visionOf s pl).map fun vision =>
    s.send pl.id [("type", .str "response"), ("cmd", .str "voir"), ("vision", .vision vision)] := by
  unfold visionOf visionTiles
  rw [List.mapM_map]
  rfl

/-- The first `n` rows have `n²` places. -/
theorem length_rows (n : Nat) :
    ((List.range n).flatMap fun d => (List.range (2 * d + 1)).map fun i => (d, i)).length = n ^ 2 := by
  induction n with
  | zero => rfl
  | succ n ih =>
    rw [List.range_succ, List.flatMap_append, List.length_append, ih]
    simp only [List.flatMap_cons, List.flatMap_nil, List.append_nil, List.length_map, List.length_range]
    ring

private theorem length_viewPlaces {level : Int} (hlevel : 0 ≤ level) :
    (viewPlaces level).length = (level.toNat + 1) ^ 2 := by
  rw [viewPlaces, length_rows]
  congr 1
  omega

/-! ### The client's map -/

/-- `Tile`: how much of each resource the client has seen there. -/
abbrev ClientTile := Resource → Nat

/-- `Resource.values`. -/
def Resource.values : List Resource :=
  [.nourriture, .linemate, .deraumere, .sibur, .mendiane, .phiras, .thystame, .player]

/-- `equalsIgnoreCase`, on texts in ASCII. -/
def equalsIgnoreCase (a b : String) : Bool := a.toList.map Char.toLower == b.toList.map Char.toLower

/-- `Resource.fromString`; `none` for the exception. -/
def Resource.fromString (text : String) : Option Resource :=
  Resource.values.find? fun r => equalsIgnoreCase r.getName text

/-- `Tile.update`. -/
def ClientTile.update (contents : List String) : Option ClientTile :=
  contents.foldlM (fun (tile : ClientTile) item => (Resource.fromString item).map fun r =>
    Function.update tile r (tile r + 1)) fun _ => 0

/-- `World`, with the tile of row `y` and column `x` at `grid y x`. -/
structure World where
  width : Int
  height : Int
  grid : Int → Int → ClientTile

/-- `generateRelativeOffsets`. -/
def generateRelativeOffsets (level : Int) : List (Int × Int) :=
  (List.range (level + 1).toNat).flatMap fun l => (List.range (2 * l + 1)).map fun (k : Nat) =>
    ((k : Int) - l, -(l : Int))

/-- `rotate`. -/
def rotate (dx dy : Int) : Int → Option (Int × Int)
  | 0 => some (dx, dy)
  | 1 => some (-dy, dx)
  | 2 => some (-dx, -dy)
  | 3 => some (dy, -dx)
  | _ => none

namespace World

variable (w : World)

/-- The column and the row that `getTile` reads; `none` outside the array. -/
def getTile (x y : Int) : Option (Int × Int) :=
  let wrappedX := (x + w.width).tmod w.width
  let wrappedY := (y + w.height).tmod w.height
  if 0 ≤ wrappedX ∧ wrappedX < w.width ∧ 0 ≤ wrappedY ∧ wrappedY < w.height then some (wrappedX, wrappedY)
  else none

/-- The tile that turn `i` of `updateVisibleTiles` overwrites. -/
def overwritten (px py direction level : Int) (i : Nat) : Option (Int × Int) :=
  (generateRelativeOffsets level)[i]?.bind fun offset =>
    (rotate offset.1 offset.2 direction).bind fun rotated =>
      w.getTile ((px + rotated.1 + w.width).tmod w.width) ((py + rotated.2 + w.height).tmod w.height)

/-- `updateTile`, for a tile of the array. -/
def updateTile (tile : Int × Int) (contents : List String) : Option World :=
  (ClientTile.update contents).map fun new =>
    { w with grid := Function.update w.grid tile.2 (Function.update (w.grid tile.2) tile.1 new) }

/-- `updateVisibleTiles`. -/
def updateVisibleTiles (px py direction level : Int) (viewData : List (List String)) : Option World :=
  (List.range viewData.length).foldlM (fun (w : World) i =>
    (w.overwritten px py direction level i).bind fun tile => w.updateTile tile (viewData.getD i [])) w

end World

/-- The value of `direction`, on both sides. -/
def Direction.value : Direction → Int
  | .north => 0
  | .east => 1
  | .south => 2
  | .west => 3

/-! ### Agreement -/

private theorem tmod_emod_self (v m : Int) : v.tmod m % m = v % m := by
  rw [Int.tmod_def, Int.sub_mul_emod_self_left]

/-- `wrap` is the remainder that is never negative. -/
private theorem wrap_eq (v : Int) {m : Int} (hm : 0 < m) : wrap v m = v % m := by
  have hlt := Int.tmod_lt_of_pos v hm
  have hgt := Int.lt_tmod_of_pos v hm
  unfold wrap
  rw [← tmod_emod_self v m]
  dsimp only
  split
  · rw [← Int.add_emod_right, Int.emod_eq_of_lt (by omega) (by omega)]
  · rw [Int.emod_eq_of_lt (by omega) (by omega)]

/-- So are the two signed remainders of the client together. -/
private theorem tmod_twice_eq (v : Int) {m : Int} (hm : 0 < m) : ((v + m).tmod m + m).tmod m = v % m := by
  have hgt := Int.lt_tmod_of_pos (v + m) hm
  rw [Int.tmod_eq_emod_of_nonneg (by omega), Int.add_emod_right, tmod_emod_self, Int.add_emod_right]

theorem getTile_eq (w : World) (hw : 0 < w.width) (hh : 0 < w.height) (x y : Int) :
    w.getTile ((x + w.width).tmod w.width) ((y + w.height).tmod w.height) = some (x % w.width, y % w.height) := by
  unfold World.getTile
  simp only [tmod_twice_eq x hw, tmod_twice_eq y hh]
  rw [if_pos]
  have hx := Int.emod_nonneg x (show w.width ≠ 0 by omega)
  have hy := Int.emod_nonneg y (show w.height ≠ 0 by omega)
  exact ⟨hx, Int.emod_lt_of_pos x hw, hy, Int.emod_lt_of_pos y hh⟩

/-- The offsets are the places, seen by a player that faces north. -/
theorem generateRelativeOffsets_eq (level : Int) : generateRelativeOffsets level =
    (viewPlaces level).map fun place => ((place.2 : Int) - place.1, -(place.1 : Int)) := by
  unfold generateRelativeOffsets viewPlaces
  rw [List.map_flatMap]
  simp only [List.map_map]
  rfl

/-- Rotating the offset of a place leads where the formula of the server for that direction leads. -/
private theorem rotate_eq (pl : Player) (d i : Nat) : rotate ((i : Int) - d) (-(d : Int)) pl.dir.value =
    some ((viewPosition pl d i).1 - pl.pos.x, (viewPosition pl d i).2 - pl.pos.y) := by
  unfold viewPosition
  cases pl.dir with
  | north =>
    simp only [Direction.value, rotate, Option.some.injEq, Prod.mk.injEq]
    omega
  | east =>
    simp only [Direction.value, rotate, Option.some.injEq, Prod.mk.injEq]
    omega
  | south =>
    simp only [Direction.value, rotate, Option.some.injEq, Prod.mk.injEq]
    omega
  | west =>
    simp only [Direction.value, rotate, Option.some.injEq, Prod.mk.injEq]
    omega

theorem viewTile_eq {s : Server} (hx : 0 < s.mapX) (hy : 0 < s.mapY) (pl : Player) (place : Nat × Nat) :
    ((viewTile s pl place).x : Int) = (viewPosition pl place.1 place.2).1 % s.mapX ∧
      ((viewTile s pl place).y : Int) = (viewPosition pl place.1 place.2).2 % s.mapY := by
  have hx' : (0 : Int) < s.mapX := by omega
  have hy' : (0 : Int) < s.mapY := by omega
  simp only [viewTile, wrap_eq _ hx', wrap_eq _ hy']
  have hnx := Int.emod_nonneg (viewPosition pl place.1 place.2).1 (show (s.mapX : Int) ≠ 0 by omega)
  have hny := Int.emod_nonneg (viewPosition pl place.1 place.2).2 (show (s.mapY : Int) ≠ 0 by omega)
  omega

/-- The view stays on the map. -/
theorem onMap_viewTile {s : Server} (hx : 0 < s.mapX) (hy : 0 < s.mapY) (pl : Player) (place : Nat × Nat) :
    s.OnMap (viewTile s pl place) := by
  obtain ⟨htx, hty⟩ := viewTile_eq hx hy pl place
  have hltx := Int.emod_lt_of_pos (viewPosition pl place.1 place.2).1 (show (0 : Int) < s.mapX by omega)
  have hlty := Int.emod_lt_of_pos (viewPosition pl place.1 place.2).2 (show (0 : Int) < s.mapY by omega)
  constructor <;> omega

theorem onMap_of_mem_visionTiles {s : Server} {pl : Player} (hx : 0 < s.mapX) (hy : 0 < s.mapY) {tile : Position}
    (h : tile ∈ visionTiles s pl) : s.OnMap tile := by
  obtain ⟨place, -, rfl⟩ := List.mem_map.1 h
  exact onMap_viewTile hx hy pl place

/-- The client's map has the size of the server's. -/
structure SameSize (s : Server) (w : World) : Prop where
  width : w.width = s.mapX
  height : w.height = s.mapY

/-- For every entry of a vision, the tile it describes is the tile that the client overwrites with it. -/
private theorem overwritten_eq {s : Server} {w : World} (hsize : SameSize s w) (pl : Player) (hx : 0 < s.mapX)
    (hy : 0 < s.mapY) (n : Nat) : w.overwritten pl.pos.x pl.pos.y pl.dir.value pl.level n =
      (visionTiles s pl)[n]?.map fun tile => ((tile.x : Int), (tile.y : Int)) := by
  unfold World.overwritten visionTiles
  rw [generateRelativeOffsets_eq, List.getElem?_map, List.getElem?_map]
  cases (viewPlaces pl.level)[n]? with
  | none => rfl
  | some place =>
    obtain ⟨htx, hty⟩ := viewTile_eq hx hy pl place
    have hw : 0 < w.width := by rw [hsize.width]; omega
    have hh : 0 < w.height := by rw [hsize.height]; omega
    simp only [Option.map_some, Option.bind_some, rotate_eq]
    rw [getTile_eq w hw hh, htx, hty, hsize.width, hsize.height]
    simp only [add_sub_cancel]

/-! ### The client's map after a vision -/

/-- Every entry that `build_tile_vision` makes names a resource. -/
theorem buildTileVision_names {s : Server} {tile : Tile} {pl : Player} {contents : List String}
    (h : buildTileVision s tile pl = some contents) {item : String} (hitem : item ∈ contents) :
    (Resource.fromString item).isSome := by
  have hpart : ∀ (c : Prop) [Decidable c] (x : String), item ∈ (if c then [x] else []) → item = x := by
    intro c _ x hx
    split at hx
    · exact List.mem_singleton.1 hx
    · cases hx
  have hseen : item ∈
      ["player", "nourriture", "linemate", "deraumere", "sibur", "mendiane", "phiras", "thystame"] := by
    have hitems : ∀ contents, contents = ((((((if tile.items.nourriture > 0 then ["nourriture"] else []) ++
        (if tile.items.linemate > 0 then ["linemate"] else [])) ++
        (if tile.items.deraumere > 0 then ["deraumere"] else [])) ++
        (if tile.items.sibur > 0 then ["sibur"] else [])) ++
        (if tile.items.mendiane > 0 then ["mendiane"] else [])) ++
        (if tile.items.phiras > 0 then ["phiras"] else [])) ++
        (if tile.items.thystame > 0 then ["thystame"] else []) → item ∈ contents →
        item ∈ ["nourriture", "linemate", "deraumere", "sibur", "mendiane", "phiras", "thystame"] := by
      rintro contents rfl hmem
      simp only [List.mem_append] at hmem
      rcases hmem with (((((h | h) | h) | h) | h) | h) | h <;> rw [hpart _ _ h] <;> simp
    unfold buildTileVision at h
    dsimp only at h
    split at h
    · cases h
      exact List.mem_cons_of_mem _ (hitems _ rfl hitem)
    · rw [Option.map_eq_some_iff] at h
      obtain ⟨first, -, rfl⟩ := h
      split at hitem
      · rcases List.mem_cons.1 hitem with rfl | hitem
        · simp
        · exact List.mem_cons_of_mem _ (hitems _ rfl hitem)
      · exact List.mem_cons_of_mem _ (hitems _ rfl hitem)
  revert hseen
  have hall : ∀ item ∈
      ["player", "nourriture", "linemate", "deraumere", "sibur", "mendiane", "phiras", "thystame"],
      (Resource.fromString item).isSome := by decide
  exact hall item

theorem tileUpdate_isSome {contents : List String} (h : ∀ item ∈ contents, (Resource.fromString item).isSome) :
    (ClientTile.update contents).isSome := by
  unfold ClientTile.update
  generalize (fun _ => 0 : ClientTile) = tile
  induction contents generalizing tile with
  | nil => rfl
  | cons item contents ih =>
    obtain ⟨r, hr⟩ := Option.isSome_iff_exists.1 (h item (by simp))
    simp only [List.foldlM_cons, hr, Option.map_some, Option.bind_eq_bind, Option.bind_some]
    exact ih (fun item hitem => h item (by simp [hitem])) _

/-- `updateTile` writes one tile. -/
private theorem updateTile_spec (w : World) (tile : Position) {contents : List String} {new : ClientTile}
    (hnew : ClientTile.update contents = some new) :
    ∃ w', w.updateTile ((tile.x : Int), (tile.y : Int)) contents = some w' ∧ w'.width = w.width ∧
      w'.height = w.height ∧
      ∀ pos : Position, w'.grid pos.y pos.x = if pos = tile then new else w.grid pos.y pos.x := by
  unfold World.updateTile
  rw [hnew, Option.map_some]
  refine ⟨_, rfl, rfl, rfl, fun pos => ?_⟩
  dsimp only
  by_cases hy : pos.y = tile.y
  · by_cases hx : pos.x = tile.x
    · rw [if_pos (by cases pos; cases tile; simp_all), hy, hx, Function.update_self, Function.update_self]
    · have hx' : (pos.x : Int) ≠ tile.x := by omega
      rw [if_neg (fun he => hx (congrArg Position.x he)), hy, Function.update_self, Function.update_of_ne hx']
  · have hy' : (pos.y : Int) ≠ tile.y := by omega
    rw [if_neg (fun he => hy (congrArg Position.y he)), Function.update_of_ne hy']

/-- The tile of the client holds what the server's tile at `pos` shows to `pl`. -/
def Shows (s : Server) (pl : Player) (w : World) (pos : Position) : Prop :=
  ∃ contents, buildTileVision s (s.map (s.mapIndex pos)) pl = some contents ∧
    ClientTile.update contents = some (w.grid pos.y pos.x)

/-- The client's map after the first `n` turns of `updateVisibleTiles` with the server's vision. -/
structure ShownUpTo (s : Server) (pl : Player) (w : World) (n : Nat) (w' : World) : Prop where
  size : SameSize s w'
  shows : ∀ pos ∈ (visionTiles s pl).take n, Shows s pl w' pos
  rest : ∀ pos : Position, pos ∉ visionTiles s pl → w'.grid pos.y pos.x = w.grid pos.y pos.x

/-- A turn of the loop writes the tile that the server described at its index. -/
theorem ShownUpTo.turn {s : Server} {pl : Player} {w w₁ : World} {n : Nat} (h : ShownUpTo s pl w n w₁)
    (hx : 0 < s.mapX) (hy : 0 < s.mapY) {vision : List (List String)} (hvision : visionOf s pl = some vision)
    (hn : n < vision.length) :
    ∃ w₂, ((w₁.overwritten pl.pos.x pl.pos.y pl.dir.value pl.level n).bind fun tile =>
      w₁.updateTile tile (vision.getD n [])) = some w₂ ∧ ShownUpTo s pl w (n + 1) w₂ := by
  have hlength : vision.length = (visionTiles s pl).length := length_eq_of_mapM hvision
  have hlt : n < (visionTiles s pl).length := by omega
  have htile : (visionTiles s pl)[n]? = some (visionTiles s pl)[n] := List.getElem?_eq_getElem hlt
  have hentry := mapM_getElem? hvision n
  rw [htile, Option.bind_some] at hentry
  obtain ⟨contents, hcontents⟩ : ∃ contents, vision[n]? = some contents := ⟨_, List.getElem?_eq_getElem hn⟩
  have hbuild : buildTileVision s (s.map (s.mapIndex (visionTiles s pl)[n])) pl = some contents :=
    hentry.symm.trans hcontents
  obtain ⟨new, hnew⟩ := Option.isSome_iff_exists.1
    (tileUpdate_isSome fun item hitem => buildTileVision_names hbuild hitem)
  obtain ⟨w₂, hupdate, hwidth, hheight, hgrid⟩ := updateTile_spec w₁ (visionTiles s pl)[n] hnew
  refine ⟨w₂, ?_, ⟨hwidth.trans h.size.width, hheight.trans h.size.height⟩, fun pos hpos => ?_, fun pos hpos => ?_⟩
  · rw [overwritten_eq h.size pl hx hy, htile, Option.map_some, Option.bind_some, List.getD_eq_getElem?_getD,
      hcontents]
    exact hupdate
  · rw [List.take_add_one, htile, Option.toList_some, List.mem_append, List.mem_singleton] at hpos
    unfold Shows
    rw [hgrid]
    -- a view that wraps around may name the tile twice: the later entry describes it the same way
    by_cases he : pos = (visionTiles s pl)[n]
    · exact ⟨contents, he ▸ hbuild, by rw [if_pos he]; exact hnew⟩
    · rw [if_neg he]
      exact h.shows pos (hpos.resolve_right he)
  · have he : pos ≠ (visionTiles s pl)[n] := fun he => hpos (he ▸ List.getElem_mem hlt)
    rw [hgrid, if_neg he]
    exact h.rest pos hpos

private theorem shownUpTo_loop {s : Server} {w : World} (hsize : SameSize s w) {pl : Player} (hx : 0 < s.mapX)
    (hy : 0 < s.mapY) {vision : List (List String)} (hvision : visionOf s pl = some vision) {n : Nat}
    (hn : n ≤ vision.length) :
    ∃ w', (List.range n).foldlM (fun (w : World) i =>
      (w.overwritten pl.pos.x pl.pos.y pl.dir.value pl.level i).bind fun tile =>
        w.updateTile tile (vision.getD i [])) w = some w' ∧ ShownUpTo s pl w n w' := by
  induction n with
  | zero => exact ⟨w, rfl, hsize, by simp, fun _ _ => rfl⟩
  | succ n ih =>
    obtain ⟨w₁, hrun, hshown⟩ := ih (Nat.le_of_succ_le hn)
    obtain ⟨w₂, hturn, hshown'⟩ := hshown.turn hx hy hvision hn
    refine ⟨w₂, ?_, hshown'⟩
    rw [List.range_succ, List.foldlM_append, hrun]
    simp only [List.foldlM_cons, List.foldlM_nil, Option.bind_eq_bind, Option.bind_some, hturn, Option.pure_def]

/-- After `updateVisibleTiles` with the server's vision the client's map shows the server's tiles in the view, and
is as before elsewhere. -/
private theorem updateVisibleTiles_vision {s : Server} {w : World} (hsize : SameSize s w) {pl : Player}
    (hx : 0 < s.mapX) (hy : 0 < s.mapY) {vision : List (List String)} (hvision : visionOf s pl = some vision) :
    ∃ w', w.updateVisibleTiles pl.pos.x pl.pos.y pl.dir.value pl.level vision = some w' ∧ SameSize s w' ∧
      (∀ pos ∈ visionTiles s pl, Shows s pl w' pos) ∧
      ∀ pos : Position, pos ∉ visionTiles s pl → w'.grid pos.y pos.x = w.grid pos.y pos.x := by
  obtain ⟨w', hrun, hshown⟩ := shownUpTo_loop hsize hx hy hvision le_rfl
  refine ⟨w', hrun, hshown.size, ?_, hshown.rest⟩
  have hshows := hshown.shows
  rwa [length_eq_of_mapM hvision, List.take_length] at hshows

/-! ### The turns of `updateVisibleTiles` -/

/-- A turn keeps the size of the map. -/
private theorem updateTile_size {w w' : World} {tile : Int × Int} {contents : List String}
    (h : w.updateTile tile contents = some w') : w'.width = w.width ∧ w'.height = w.height := by
  unfold World.updateTile at h
  obtain ⟨new, -, rfl⟩ := Option.map_eq_some_iff.1 h
  exact ⟨rfl, rfl⟩

/-- `updateVisibleTiles` on the first `n` entries of a view takes the first `n` turns. -/
private theorem updateVisibleTiles_take (w : World) (px py direction level : Int) {view : List (List String)} {n : Nat}
    (hn : n ≤ view.length) : w.updateVisibleTiles px py direction level (view.take n) =
      (List.range n).foldlM (fun (w : World) i => (w.overwritten px py direction level i).bind fun tile =>
        w.updateTile tile (view.getD i [])) w := by
  unfold World.updateVisibleTiles
  rw [List.length_take_of_le hn]
  refine foldlM_congr fun w i hi => ?_
  have hentry : (view.take n).getD i [] = view.getD i [] := by
    rw [List.getD_eq_getElem?_getD, List.getD_eq_getElem?_getD, List.getElem?_take_of_lt (List.mem_range.1 hi)]
  rw [hentry]

/-- One entry more is one turn more. -/
private theorem updateVisibleTiles_take_succ (w : World) (px py direction level : Int) {view : List (List String)}
    {n : Nat} (hn : n < view.length) : w.updateVisibleTiles px py direction level (view.take (n + 1)) =
      (w.updateVisibleTiles px py direction level (view.take n)).bind fun w₁ =>
        (w₁.overwritten px py direction level n).bind fun tile => w₁.updateTile tile (view.getD n []) := by
  rw [updateVisibleTiles_take w px py direction level hn,
    updateVisibleTiles_take w px py direction level (Nat.le_of_lt hn), List.range_succ, List.foldlM_append]
  simp only [List.foldlM_cons, List.foldlM_nil, Option.bind_eq_bind, Option.pure_def, Option.bind_fun_some]

private theorem updateVisibleTiles_size {w w' : World} {px py direction level : Int} {view : List (List String)}
    (h : w.updateVisibleTiles px py direction level view = some w') :
    w'.width = w.width ∧ w'.height = w.height := by
  unfold World.updateVisibleTiles at h
  refine Run.foldlM_invariant (I := fun w₁ => w₁.width = w.width ∧ w₁.height = w.height)
    (fun w₁ i hi w₂ h' hI => ?_) h ⟨rfl, rfl⟩
  obtain ⟨tile, -, hupdate⟩ := Option.bind_eq_some_iff.1 h'
  obtain ⟨hwidth, hheight⟩ := updateTile_size hupdate
  exact ⟨hwidth.trans hI.1, hheight.trans hI.2⟩

/-! ### `voir` on both sides -/

/-- On a map of this size `pl` stands at `pos`, faces `dir` and has the level `level`. -/
structure Viewer (width height : Nat) (pos : Position) (dir : Direction) (level : Int) (s : Server) (pl : Player) :
    Prop where
  mapX : s.mapX = width
  mapY : s.mapY = height
  pos : pl.pos = pos
  dir : pl.dir = dir
  level : pl.level = level

/-- The entry at index `n` of the answer to `voir` describes `tile`. -/
structure DescribesAt (s : Server) (pl : Player) (n : Nat) (tile : Position) : Prop where
  /-- There is an answer if no tile of the map has a dangling list. -/
  answers : (∀ pos, s.OnMap pos → (buildTileVision s (s.map (s.mapIndex pos)) pl).isSome) → (commandVoir s pl).isSome
  entry : ∀ s', commandVoir s pl = some s' → ∃ (vision : List (List String)) (contents : List String),
    s' = s.send pl.id [("type", .str "response"), ("cmd", .str "voir"), ("vision", .vision vision)] ∧
      vision[n]? = some contents ∧ buildTileVision s (s.map (s.mapIndex tile)) pl = some contents

/-- Whatever the view, `updateVisibleTiles` overwrites `tile` with the entry at index `n`. -/
def OverwritesAt (w : World) (px py direction level : Int) (n : Nat) (tile : Position) : Prop :=
  ∀ view : List (List String), n < view.length → w.updateVisibleTiles px py direction level (view.take (n + 1)) =
    (w.updateVisibleTiles px py direction level (view.take n)).bind fun w₁ =>
      w₁.updateTile ((tile.x : Int), (tile.y : Int)) (view.getD n [])

variable {width height : Nat} {pos : Position} {dir : Direction} {level : Int} {s s₀ : Server} {pl pl₀ : Player}

/-- The view depends on the size of the map, the place, the facing and the level only. -/
private theorem Viewer.visionTiles_eq (h : Viewer width height pos dir level s pl)
    (h₀ : Viewer width height pos dir level s₀ pl₀) : visionTiles s pl = visionTiles s₀ pl₀ := by
  have hplace : ∀ d i, viewPosition pl d i = viewPosition pl₀ d i := by
    intro d i
    unfold viewPosition
    rw [h.pos, h.dir, h₀.pos, h₀.dir]
  unfold visionTiles
  rw [h.level, h₀.level]
  refine List.map_congr_left fun place _ => ?_
  unfold viewTile
  rw [hplace, h.mapX, h.mapY, h₀.mapX, h₀.mapY]

theorem describesAt {s : Server} {pl : Player} (hx : 0 < s.mapX) (hy : 0 < s.mapY) {n : Nat} {tile : Position}
    (htile : (visionTiles s pl)[n]? = some tile) : DescribesAt s pl n tile := by
  constructor
  case answers =>
    intro hmap
    have hvision : (visionOf s pl).isSome :=
      mapM_isSome.2 fun pos hpos => hmap pos (onMap_of_mem_visionTiles hx hy hpos)
    rw [commandVoir_eq, Option.isSome_map]
    exact hvision
  case entry =>
    intro s' hs'
    rw [commandVoir_eq, Option.map_eq_some_iff] at hs'
    obtain ⟨vision, hvision, rfl⟩ := hs'
    have hentry := mapM_getElem? hvision n
    rw [htile, Option.bind_some] at hentry
    have hlt : n < vision.length := by
      rw [length_eq_of_mapM hvision]
      exact (List.getElem?_eq_some_iff.1 htile).1
    have hcontents : vision[n]? = some vision[n] := List.getElem?_eq_getElem hlt
    exact ⟨vision, _, rfl, hcontents, hentry.symm.trans hcontents⟩

/-- `voir` on both sides: for every size of the map, position on it, facing, level and index below `(level + 1)²`,
there is one tile that the entry of the vision describes, that `updateVisibleTiles` overwrites with the entry, and
that is shown on the client's map after the whole vision. -/
theorem voir_geometry_agrees {width height : Nat} {pos : Position} (dir : Direction) {level : Int}
    (hx : pos.x < width) (hy : pos.y < height) (hlevel : 0 ≤ level) {n : Nat} (hn : n < (level.toNat + 1) ^ 2) :
    ∃ tile : Position, tile.x < width ∧ tile.y < height ∧
      (∀ s pl, Viewer width height pos dir level s pl → DescribesAt s pl n tile) ∧
      (∀ w : World, w.width = width → w.height = height →
        OverwritesAt w pos.x pos.y dir.value level n tile) ∧
      ∀ s pl, Viewer width height pos dir level s pl → ∀ w, SameSize s w → ∀ s', commandVoir s pl = some s' →
        ∃ (vision : List (List String)) (w' : World),
          s' = s.send pl.id [("type", .str "response"), ("cmd", .str "voir"), ("vision", .vision vision)] ∧
          w.updateVisibleTiles pos.x pos.y dir.value level vision = some w' ∧ Shows s pl w' tile := by
  obtain ⟨s₀, pl₀, h₀⟩ : ∃ s pl, Viewer width height pos dir level s pl :=
    ⟨gameInit shippedConfig width height [] 0 fun _ _ => 0,
      { id := 0, teamId := 0, level := level, pos := pos, dir := dir, dieTime := 0 }, rfl, rfl, rfl, rfl, rfl⟩
  have hx₀ : 0 < s₀.mapX := by rw [h₀.mapX]; omega
  have hy₀ : 0 < s₀.mapY := by rw [h₀.mapY]; omega
  obtain ⟨tile, htile⟩ : ∃ tile, (visionTiles s₀ pl₀)[n]? = some tile := by
    refine ⟨_, List.getElem?_eq_getElem ?_⟩
    rw [visionTiles, List.length_map, h₀.level, length_viewPlaces hlevel]
    exact hn
  obtain ⟨hon, hon'⟩ := onMap_of_mem_visionTiles hx₀ hy₀ (List.mem_of_getElem? htile)
  rw [h₀.mapX] at hon
  rw [h₀.mapY] at hon'
  refine ⟨tile, hon, hon', fun s pl h => ?_, fun w hwidth hheight view hlt => ?_, fun s pl h w hsize s' hs' => ?_⟩
  · exact describesAt (by rw [h.mapX]; omega) (by rw [h.mapY]; omega) (by rw [h.visionTiles_eq h₀]; exact htile)
  · rw [updateVisibleTiles_take_succ w _ _ _ _ hlt]
    cases hturns : w.updateVisibleTiles pos.x pos.y dir.value level (view.take n) with
    | none => rfl
    | some w₁ =>
      obtain ⟨hwidth₁, hheight₁⟩ := updateVisibleTiles_size hturns
      have hsize : SameSize s₀ w₁ :=
        ⟨by rw [hwidth₁, hwidth, h₀.mapX], by rw [hheight₁, hheight, h₀.mapY]⟩
      have hover := overwritten_eq hsize pl₀ hx₀ hy₀ n
      rw [h₀.pos, h₀.dir, h₀.level, htile] at hover
      rw [Option.bind_some, hover]
      rfl
  · rw [commandVoir_eq, Option.map_eq_some_iff] at hs'
    obtain ⟨vision, hvision, rfl⟩ := hs'
    obtain ⟨w', hupdate, -, hshows, -⟩ := updateVisibleTiles_vision hsize (by rw [h.mapX]; omega)
      (by rw [h.mapY]; omega) hvision
    rw [h.pos, h.dir, h.level] at hupdate
    refine ⟨vision, w', rfl, hupdate, hshows tile ?_⟩
    rw [h.visionTiles_eq h₀]
    exact List.mem_of_getElem? htile

/-- A map of two rows, where the view of a player at the corner wraps. -/
theorem voir_geometry_agrees_corner : ∃ tile : Position, tile.x < 3 ∧ tile.y < 2 ∧
    (∀ s pl, Viewer 3 2 ⟨0, 0⟩ .west 2 s pl → DescribesAt s pl 8 tile) ∧
    (∀ w : World, w.width = 3 → w.height = 2 → OverwritesAt w 0 0 3 2 8 tile) := by
  obtain ⟨tile, hx, hy, hserver, hclient, -⟩ := @voir_geometry_agrees 3 2 ⟨0, 0⟩ .west 2 (by decide)
    (by decide) (by decide) 8 (by decide)
  exact ⟨tile, hx, hy, hserver, hclient⟩

end Zappy

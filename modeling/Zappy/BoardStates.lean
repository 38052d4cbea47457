import Zappy.Board
import Zappy.ElevationRules
import Zappy.Expulsion
import Zappy.Moves
import Zappy.Spawning

/-!
# The board that the server keeps

A state of the server stands for a board: the players on the torus, and the items on the tiles.  What the functions
of `game.c` write to the heap and to the map is said here in terms of that board.
-/

namespace Zappy

open LinkedList Relation Run Turtle Tabletop

variable {cfg : Config} {a : GameAction} {width height seats : Nat} {s s' : Server} {p q : Addr} {pl ql : Player}

abbrev Torus (width height : Nat) : Type := ZMod width × ZMod height

abbrev GameBoard (width height : Nat) : Type := Board Addr Fd (Torus width height) Direction InventoryType

abbrev GameOrder (width height : Nat) : Type := Order Addr Fd (Torus width height) Direction InventoryType

/-- The rules that `game.c` implements, with `nb_clients` seats. -/
def gameRules (width height seats : Nat) : Rulebook (Torus width height) Direction InventoryType where
  frame := torusFrame width height
  food := .nourriture
  top := levelMax
  crew level := (levelReqs level).playerNumber
  price level := (levelReqs level).inv.get
  full items := 15 < items .nourriture + items .linemate + items .deraumere + items .sibur + items .mendiane +
    items .phiras + items .thystame
  seats := seats

/-- The record of a player, as a piece. -/
def Player.piece (width height : Nat) (pl : Player) : Piece Fd (Torus width height) Direction InventoryType where
  owner := pl.id
  pose := pl.pose width height
  level := pl.level
  pouch := pl.inv.get

/-- The index of the tile at a place. -/
def Server.tileAt (s : Server) (t : Torus width height) : Nat := s.mapIndex ⟨t.1.val, t.2.val⟩

/-- The players at the addresses given out so far, and the items on the tiles. -/
def Server.board (width height : Nat) (s : Server) : GameBoard width height where
  piece p := if p < s.nextAddr then (s.playerHeap p).map (Player.piece width height) else none
  stock t := (s.map (s.tileAt t)).items.get
  finite := by
    refine (Set.finite_lt_nat s.nextAddr).subset fun p hp => ?_
    rw [Set.mem_ofPred_eq] at hp
    split at hp
    · rename_i hlt
      exact hlt
    · cases hp

/-! ### Reading the board -/

theorem Placed.board_piece (h : Placed width height s) (p : Addr) :
    (s.board width height).piece p = (s.playerHeap p).map (Player.piece width height) := by
  simp only [Server.board]
  split
  · rfl
  · rename_i hge
    rw [h.fresh p (Nat.le_of_not_lt hge)]
    rfl

theorem Placed.board_of_player (h : Placed width height s) (hpl : s.playerHeap p = some pl) :
    (s.board width height).piece p = some (pl.piece width height) := by
  rw [h.board_piece, hpl, Option.map_some]

theorem Placed.player_of_board (h : Placed width height s) {w : Piece Fd (Torus width height) Direction InventoryType}
    (hw : (s.board width height).piece p = some w) : ∃ pl, s.playerHeap p = some pl ∧ pl.piece width height = w := by
  rw [h.board_piece] at hw
  exact Option.map_eq_some_iff.1 hw

/-- A board is known by its pieces and its stock. -/
theorem Placed.board_eq (h : Placed width height s) {b : GameBoard width height}
    (hpieces : ∀ q, (s.playerHeap q).map (Player.piece width height) = b.piece q)
    (hstock : ∀ t r, (s.map (s.tileAt t)).items.get r = b.stock t r) : s.board width height = b := by
  refine Board.ext (funext fun q => ?_) (funext fun t => funext fun r => hstock t r)
  rw [h.board_piece]
  exact hpieces q

/-- The places of the torus are the tiles of the map. -/
private theorem Placed.tileAt_eq_iff (h : Placed width height s) {pos : Position} (hpos : s.OnMap pos)
    (t : Torus width height) : s.tileAt t = s.mapIndex pos ↔ t = pos.onTorus width height := by
  have hx : pos.x < width := h.mapX ▸ hpos.1
  have hy : pos.y < height := h.mapY ▸ hpos.2
  have hwidth : NeZero width := ⟨Nat.ne_zero_of_lt hx⟩
  have hheight : NeZero height := ⟨Nat.ne_zero_of_lt hy⟩
  constructor
  · intro he
    have hon : s.OnMap ⟨t.1.val, t.2.val⟩ := by
      refine ⟨?_, ?_⟩
      · rw [h.mapX]
        exact ZMod.val_lt t.1
      · rw [h.mapY]
        exact ZMod.val_lt t.2
    have hcoords := mapIndex_inj hon hpos he
    rw [← hcoords, Position.onTorus, ZMod.natCast_zmod_val, ZMod.natCast_zmod_val]
  · rintro rfl
    simp only [Server.tileAt, Position.onTorus, ZMod.val_natCast, Nat.mod_eq_of_lt hx, Nat.mod_eq_of_lt hy]

/-- Players on one place of the torus are players on one tile. -/
theorem Placed.place_eq_iff (h : Placed width height s) (hpl : s.playerHeap p = some pl)
    (hql : s.playerHeap q = some ql) :
    (ql.piece width height).pose.place = (pl.piece width height).pose.place ↔ ql.pos = pl.pos := by
  have hp := h.onMap hpl
  have hq := h.onMap hql
  rw [Server.OnMap, h.mapX, h.mapY] at hp hq
  exact onTorus_inj hq.1 hq.2 hp.1 hp.2

/-- The stock of the place of a player. -/
theorem Placed.stock_here (h : Placed width height s) (hpl : s.playerHeap p = some pl) (r : InventoryType) :
    (s.board width height).stock (pl.piece width height).pose.place r =
      (s.map (s.mapIndex pl.pos)).items.get r := by
  have htile := (h.tileAt_eq_iff (h.onMap hpl) (pl.pos.onTorus width height)).2 rfl
  change (s.map (s.tileAt (pl.pos.onTorus width height))).items.get r = _
  rw [htile]

/-- The players of one level on the tile of a player are a crew. -/
theorem Placed.crew_ncard (h : Placed width height s) (hpl : s.playerHeap p = some pl) {l : List Addr}
    (hl : l.Nodup) (hmem : ∀ q, q ∈ l ↔ ∃ r, s.playerHeap q = some r ∧ r.pos = pl.pos) (level : Int) :
    ((s.board width height).crew (pl.piece width height).pose.place level).ncard =
      l.countP fun q => s.levelOf q = some level := by
  have hset : (s.board width height).crew (pl.piece width height).pose.place level =
      ↑(l.filter fun q => s.levelOf q = some level).toFinset := by
    ext q
    rw [Finset.mem_coe, List.mem_toFinset, List.mem_filter, hmem, decide_eq_true_eq]
    constructor
    · rintro ⟨w, hw, hplace, hlevel⟩
      obtain ⟨r, hr, rfl⟩ := h.player_of_board hw
      exact ⟨⟨r, hr, (h.place_eq_iff hpl hr).1 hplace⟩, by rw [levelOf_eq hr, ← hlevel]; rfl⟩
    · rintro ⟨⟨r, hr, hpos⟩, hlevel⟩
      rw [levelOf_eq hr, Option.some.injEq] at hlevel
      exact ⟨r.piece width height, h.board_of_player hr, (h.place_eq_iff hpl hr).2 hpos, hlevel⟩
  rw [hset, Set.ncard_coe_finset, List.toFinset_card_of_nodup (hl.filter _), List.countP_eq_length_filter]

/-! ### Writing to the board -/

/-- What does not show on the board. -/
theorem Placed.board_same (h : Placed width height s) (h' : Placed width height s')
    (hpieces : ∀ q, (s'.playerHeap q).map (Player.piece width height) =
      (s.playerHeap q).map (Player.piece width height))
    (hitems : ∀ t, (s'.map t).items = (s.map t).items) : s'.board width height = s.board width height := by
  refine h'.board_eq (fun q => (hpieces q).trans (h.board_piece q).symm) fun t r => ?_
  have htile : s'.tileAt t = s.tileAt t := by
    rw [Server.tileAt, Server.tileAt, Server.mapIndex, Server.mapIndex, h.mapX, h'.mapX]
  rw [htile, hitems]
  rfl

/-- The piece of a player whose place alone is written. -/
theorem piece_of_core {r r' : Player} (h : r'.core = r.core) : r'.piece width height =
    { r.piece width height with pose := ⟨r'.pos.onTorus width height, r.dir⟩ } := by
  obtain ⟨hid, -, hlevel, hdir, hinv, -, -⟩ := Player.core_eq h
  simp only [Player.piece, Player.pose, hid, hlevel, hdir, hinv]

/-- Who keeps its place, keeps its piece when the lists of the tiles change. -/
theorem piece_of_place (hcore : (s'.playerHeap q).map Player.core = (s.playerHeap q).map Player.core)
    (hpos : s'.posOf q = s.posOf q) :
    (s'.playerHeap q).map (Player.piece width height) = (s.playerHeap q).map (Player.piece width height) := by
  cases hr : s.playerHeap q with
  | none =>
    rw [hr, Option.map_none, Option.map_eq_none_iff] at hcore
    rw [hcore]
  | some r =>
    rw [hr, Option.map_some, Option.map_eq_some_iff] at hcore
    obtain ⟨r', hr', hcore⟩ := hcore
    simp only [Server.posOf, hr, hr', Option.map_some, Option.some.injEq] at hpos
    rw [hr', Option.map_some, Option.map_some, piece_of_core hcore, hpos]
    rfl

/-- A player moved to another tile. -/
theorem Placed.board_move (h : Placed width height s) (hq : s.playerHeap q = some ql) {pos : Position}
    (hpos : s.OnMap pos) : (gameMovePlayer s q pos).board width height =
      (s.board width height).modify q fun w => { w with pose := ⟨pos.onTorus width height, w.pose.heading⟩ } := by
  have hsame := movePlayer_same s q pos
  have hmoved : (gameMovePlayer s q pos).posOf q = some pos := by
    obtain ⟨-, -, -, L, hL⟩ := h
    exact hL.move_posOf (by rw [hq]; rfl) hpos
  refine (h.move hq hpos).board_eq (fun v => ?_) fun t r => ?_
  · rw [Board.modify_piece, h.board_piece]
    split
    · rename_i hv
      obtain ⟨q', hq', hcore⟩ := hsame.player' hq
      rw [Server.posOf, hq', Option.map_some, Option.some.injEq] at hmoved
      rw [hv, hq, hq', Option.map_some, Option.map_some, Option.map_some, piece_of_core hcore, hmoved]
      rfl
    · rename_i hv
      exact piece_of_place (hsame.core v) (movePlayer_posOf_ne s pos hv)
  · rw [hsame.items, hsame.rest]
    rfl

/-- A write to the record of a player, but for its place. -/
theorem Placed.board_modPlayer (h : Placed width height s) {f : Player → Player}
    (h' : Placed width height (s.modPlayer p f))
    (g : Piece Fd (Torus width height) Direction InventoryType →
      Piece Fd (Torus width height) Direction InventoryType)
    (hf : ∀ r, s.playerHeap p = some r → (f r).piece width height = g (r.piece width height)) :
    (s.modPlayer p f).board width height = (s.board width height).modify p g := by
  refine h'.board_eq (fun v => ?_) fun _ _ => rfl
  rw [Board.modify_piece, h.board_piece, modPlayer_heap]
  split
  · rename_i hv
    rw [hv]
    cases hr : s.playerHeap p with
    | none => rfl
    | some r => exact congrArg some (hf r hr)
  · rfl

/-- A write to the items of the tile of a player. -/
theorem Placed.board_modTile (h : Placed width height s) {f : Tile → Tile}
    (h' : Placed width height (s.modTile (s.mapIndex pl.pos) f)) (hpl : s.playerHeap p = some pl)
    (g : (InventoryType → ℤ) → InventoryType → ℤ) (hf : ∀ tile : Tile, (f tile).items.get = g tile.items.get) :
    (s.modTile (s.mapIndex pl.pos) f).board width height =
      (s.board width height).restock (pl.piece width height).pose.place g := by
  refine h'.board_eq (fun v => (h.board_piece v).symm) fun t r => ?_
  have htile := h.tileAt_eq_iff (h.onMap hpl) t
  change (Function.update s.map (s.mapIndex pl.pos) (f (s.map (s.mapIndex pl.pos))) (s.tileAt t)).items.get r =
    Function.update (s.board width height).stock (pl.pos.onTorus width height) _ t r
  rw [Function.update_apply, Function.update_apply]
  by_cases ht : t = pl.pos.onTorus width height
  · rw [if_pos ht, if_pos (htile.2 ht), hf]
    congr 1
    funext r'
    exact (h.stock_here hpl r').symm
  · rw [if_neg ht, if_neg (mt htile.1 ht)]
    rfl

end Zappy

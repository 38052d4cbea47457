import Zappy.Messages
import Zappy.TimeApi
import Zappy.Lib.LinkedList

/-!
# The commands of a player (`game.c`)

The tile lists, the twelve commands and the completion of an incantation.  A command gets the address `p` of its
player and the record `pl` it finds there.  A loop over a tile list stops without a result when it follows a
dangling pointer or takes more turns than there are addresses; only the loop of `m_command_expulse`, which moves
the nodes it walks over, may go on for ever, and takes its number of turns as an argument.
-/

namespace Zappy

open LinkedList

/-! ### Tile lists -/

namespace Server

variable (s : Server)

def setNext (q : Addr) (n : Option Addr) : Server := s.modPlayer q fun r => { r with nextOnTile := n }

def setPrev (q : Addr) (v : Option Addr) : Server := s.modPlayer q fun r => { r with prevOnTile := v }

def setPos (q : Addr) (pos : Position) : Server := s.modPlayer q fun r => { r with pos := pos }

/-- `t->players = n`. -/
def setHead (t : Nat) (n : Option Addr) : Server := s.modTile t fun tile => { tile with players := n }

/-- `n` becomes the successor of the node `v`, or the head of the list of tile `t` when there is no such node. -/
def linkNext (t : Nat) (v n : Option Addr) : Server :=
  match v with
  | some q => s.setNext q n
  | none => s.setHead t n

/-- `v` becomes the predecessor of the node `n`, if there is one. -/
def linkPrev (n v : Option Addr) : Server :=
  match n with
  | some q => s.setPrev q v
  | none => s

end Server

/-- `m_game_add_player_to_tile`, for the tile with index `t`. -/
def gameAddPlayerToTile (s : Server) (t : Nat) (p : Addr) : Server :=
  let head := (s.map t).players
  let s₁ := (((s.setNext p head).setPrev p none).linkPrev head (some p)).setHead t (some p)
  s₁.setPos p (s₁.map t).pos

/-- `m_game_remove_player_from_tile`. -/
def gameRemovePlayerFromTile (s : Server) (p : Addr) : Server :=
  match s.playerHeap p with
  | none => s
  | some pl =>
    let t := s.mapIndex pl.pos
    (((s.linkNext t pl.prevOnTile pl.nextOnTile).linkPrev pl.nextOnTile pl.prevOnTile).setNext p none).setPrev p none

/-- `m_game_move_player`. -/
def gameMovePlayer (s : Server) (p : Addr) (newPos : Position) : Server :=
  let s₁ := (gameRemovePlayerFromTile s p).setPos p newPos
  gameAddPlayerToTile s₁ (s₁.mapIndex newPos) p

/-- The successor of a node of a tile list, read from the heap. -/
def Server.nextOnTile (s : Server) (p : Addr) : Option (Option Addr) :=
  (s.playerHeap p).map Player.nextOnTile

/-! ### Moves -/

/-- `p->pos` one step ahead, on the torus. -/
def stepAhead (s : Server) (pos : Position) : Direction → Position
  | .north => ⟨pos.x, (pos.y + s.mapY - 1) % s.mapY⟩
  | .east => ⟨(pos.x + 1) % s.mapX, pos.y⟩
  | .south => ⟨pos.x, (pos.y + 1) % s.mapY⟩
  | .west => ⟨(pos.x + s.mapX - 1) % s.mapX, pos.y⟩

def turnRight : Direction → Direction
  | .north => .east
  | .east => .south
  | .south => .west
  | .west => .north

def turnLeft : Direction → Direction
  | .north => .west
  | .east => .north
  | .south => .east
  | .west => .south

/-- `m_command_avance`. -/
def commandAvance (s : Server) (p : Addr) (pl : Player) (arg : Option Arg) : Server :=
  (gameMovePlayer s p (stepAhead s pl.pos pl.dir)).createResponseToCommand pl.id "avance" (arg.map Arg.text)
    (some "ok")

/-- `m_command_droite`. -/
def commandDroite (s : Server) (p : Addr) (pl : Player) (arg : Option Arg) : Server :=
  (s.modPlayer p fun r => { r with dir := turnRight pl.dir }).createResponseToCommand pl.id "droite"
    (arg.map Arg.text) (some "ok")

/-- `m_command_gauche`. -/
def commandGauche (s : Server) (p : Addr) (pl : Player) (arg : Option Arg) : Server :=
  (s.modPlayer p fun r => { r with dir := turnLeft pl.dir }).createResponseToCommand pl.id "gauche"
    (arg.map Arg.text) (some "ok")

/-! ### Looking around -/

/-- `wrap`, with the C remainder. -/
def wrap (v m : Int) : Int :=
  let r := v.tmod m
  if r < 0 then r + m else r

/-- `build_tile_vision`. -/
def buildTileVision (s : Server) (tile : Tile) (pl : Player) : Option (List String) :=
  let items := tile.items
  let seen := (if items.nourriture > 0 then ["nourriture"] else []) ++
    (if items.linemate > 0 then ["linemate"] else []) ++ (if items.deraumere > 0 then ["deraumere"] else []) ++
    (if items.sibur > 0 then ["sibur"] else []) ++ (if items.mendiane > 0 then ["mendiane"] else []) ++
    (if items.phiras > 0 then ["phiras"] else []) ++ (if items.thystame > 0 then ["thystame"] else [])
  match tile.players with
  | none => some seen
  | some q => (s.playerHeap q).map fun first =>
    if first.id ≠ pl.id ∧ pl.nextOnTile ≠ none then "player" :: seen else seen

/-- The tile at place `i` of row `d` of the view. -/
def viewPosition (pl : Player) (d i : Int) : Int × Int :=
  match pl.dir with
  | .north => (pl.pos.x - d + i, pl.pos.y - d)
  | .east => (pl.pos.x + d, pl.pos.y - d + i)
  | .south => (pl.pos.x + d - i, pl.pos.y + d)
  | .west => (pl.pos.x - d, pl.pos.y + d - i)

/-- `m_command_voir`. -/
def commandVoir (s : Server) (pl : Player) : Option Server :=
  let places : List (Nat × Nat) :=
    (List.range (pl.level + 1).toNat).flatMap fun d => (List.range (2 * d + 1)).map fun i => (d, i)
  (places.mapM fun place =>
    let rel := viewPosition pl place.1 place.2
    let pos : Position := ⟨(wrap rel.1 s.mapX).toNat, (wrap rel.2 s.mapY).toNat⟩
    buildTileVision s (s.map (s.mapIndex pos)) pl).map fun vision =>
      s.send pl.id [("type", .str "response"), ("cmd", .str "voir"), ("vision", .vision vision)]

/-- The fields of an inventory, as the messages list them. -/
def Inventory.fields (inv : Inventory) : List (String × Int) :=
  [("nourriture", inv.nourriture), ("linemate", inv.linemate), ("deraumere", inv.deraumere),
    ("sibur", inv.sibur), ("mendiane", inv.mendiane), ("phiras", inv.phiras), ("thystame", inv.thystame)]

/-- `m_command_inventaire`. -/
def commandInventaire (s : Server) (pl : Player) : Server :=
  s.send pl.id [("type", .str "response"), ("cmd", .str "inventaire"), ("inventaire", .numbers pl.inv.fields)]

/-! ### Objects -/

def inventoryNames : List (InventoryType × String) :=
  [(.nourriture, "nourriture"), (.linemate, "linemate"), (.deraumere, "deraumere"), (.sibur, "sibur"),
    (.mendiane, "mendiane"), (.phiras, "phiras"), (.thystame, "thystame")]

def inventoryTypeOf (name : String) : Option InventoryType :=
  (inventoryNames.find? fun entry => entry.2 == name).map Prod.fst

/-- `m_helper_items_to_tiles`, whose seven cases differ in the resource only: with `add = -1` one unit goes from
the tile to the player, with `add = 1` from the player to the tile; `none` for `ERROR`. -/
def helperItemsToTiles (s : Server) (t : Nat) (p : Addr) (pl : Player) (add : Int) (type : InventoryType) :
    Option Server :=
  if add = -1 then
    if (s.map t).items.get type ≤ 0 then none
    else some ((s.modTile t fun tile => { tile with items := tile.items.add type (-1) }).modPlayer p fun r =>
      { r with inv := r.inv.add type 1 })
  else if add = 1 then
    if pl.inv.get type ≤ 0 then none
    else some ((s.modTile t fun tile => { tile with items := tile.items.add type 1 }).modPlayer p fun r =>
      { r with inv := r.inv.add type (-1) })
  else some s

/-- The common body of `m_command_prend` and `m_command_pose`. -/
def commandTransfer (cmd : String) (add : Int) (s : Server) (p : Addr) (pl : Player) (arg : Option Arg) :
    Server :=
  match arg with
  | none => s.createResponseToCommand pl.id cmd (some "Invalid arg.") (some "ko")
  | some a =>
    match inventoryTypeOf a.text with
    | none => s.createResponseToCommand pl.id cmd (some "Unknown type.") (some "ko")
    | some type =>
      match helperItemsToTiles s (s.mapIndex pl.pos) p pl add type with
      | none => s.createResponseToCommand pl.id cmd (some a.text) (some "ko")
      | some s' => s'.createResponseToCommand pl.id cmd (some a.text) (some "ok")

/-- `m_command_prend`. -/
def commandPrend : Server → Addr → Player → Option Arg → Server := commandTransfer "prend" (-1)

/-- `m_command_pose`. -/
def commandPose : Server → Addr → Player → Option Arg → Server := commandTransfer "pose" 1

/-! ### Other players -/

/-- `direction_table[row][col]` of `m_command_expulse`. -/
def directionTable : Direction → Direction → String
  | .north, .north => "1" | .north, .east => "7" | .north, .south => "5" | .north, .west => "3"
  | .east, .north => "3" | .east, .east => "1" | .east, .south => "7" | .east, .west => "5"
  | .south, .north => "5" | .south, .east => "3" | .south, .south => "1" | .south, .west => "7"
  | .west, .north => "7" | .west, .east => "5" | .west, .south => "3" | .west, .west => "1"

/-- One turn of the loop of `m_command_expulse`. -/
def expulseTurn (pl : Player) (newPos : Position) (s : Server) (it : Addr) : Option Server :=
  (s.playerHeap it).map fun q =>
    if q.id = pl.id then s
    else (gameMovePlayer s it newPos).createResponseToCommand q.id "deplacement" none
      (some (directionTable pl.dir pl.dir))

/-- `m_command_expulse`, when its loop ends within `fuel` turns. -/
def commandExpulse (fuel : Nat) (s : Server) (pl : Player) : Option Server :=
  match (s.map (s.mapIndex pl.pos)).players with
  | none => some (s.createResponseToCommand pl.id "expulse" none (some "ok"))
  | some first =>
    (forEach (expulseTurn pl (stepAhead s pl.pos pl.dir)) Server.nextOnTile fuel s (some first)).map fun s' =>
      s'.createResponseToCommand pl.id "expulse" none (some "ok")

/-- `minimal_delta`. -/
def minimalDelta (delta max : Int) : Int :=
  let delta := if delta > max.tdiv 2 then delta - max else delta
  if delta < (-max).tdiv 2 then delta + max else delta

/-- `compute_broadcast_direction`, over the floating-point expression `sector`. -/
def computeBroadcastDirection (sector : Int → Int → Int) (listener : Position) (listenerDir : Direction)
    (emitter : Position) (width height : Nat) : Int :=
  let dx := minimalDelta ((emitter.x : Int) - listener.x) width
  let dy := minimalDelta ((emitter.y : Int) - listener.y) height
  if dx = 0 ∧ dy = 0 then 0
  else
    let (dxp, dyp) := match listenerDir with
      | .north => (dx, dy)
      | .east => (dy, -dx)
      | .south => (-dx, -dy)
      | .west => (-dy, dx)
    let K := sector (-dyp) dxp
    if K > 8 then 1 else K

/-- One turn of the loop of `m_command_broadcast`. -/
def broadcastTurn (cfg : Config) (pl : Player) (arg : Option Arg) (s : Server) (slot : Option Addr) :
    Option Server :=
  match slot with
  | none => some s
  | some c => (s.clientHeap c).bind fun cl => (s.playerHeap cl.player).map fun receiver =>
    let K := computeBroadcastDirection cfg.sector receiver.pos receiver.dir pl.pos s.mapX s.mapY
    s.createResponseToCommand receiver.id "message" (some (snprintf 4 K)) (arg.map Arg.text)

/-- `m_command_broadcast`. -/
def commandBroadcast (cfg : Config) (s : Server) (pl : Player) (arg : Option Arg) : Option Server :=
  (s.clients.foldlM (broadcastTurn cfg pl arg) s).map fun s' =>
    s'.createResponseToCommand pl.id "broadcast" none (some "ok")

/-! ### Incantations -/

structure LevelRequisites where
  playerNumber : Int
  inv : Inventory
  deriving DecidableEq, Repr

/-- The rows of `level_reqs`. -/
def levelReqsTable : List LevelRequisites :=
  [⟨1, ⟨0, 1, 0, 0, 0, 0, 0⟩⟩, ⟨2, ⟨0, 1, 1, 1, 0, 0, 0⟩⟩, ⟨2, ⟨0, 2, 0, 1, 0, 2, 0⟩⟩, ⟨4, ⟨0, 1, 1, 2, 0, 1, 0⟩⟩,
    ⟨4, ⟨0, 1, 2, 1, 3, 0, 0⟩⟩, ⟨6, ⟨0, 1, 2, 3, 0, 1, 0⟩⟩, ⟨6, ⟨0, 2, 2, 2, 2, 2, 1⟩⟩]

/-- `level_reqs[level]`. -/
def levelReqs (level : Int) : LevelRequisites := levelReqsTable.getD level.toNat ⟨0, {}⟩

def levelMax : Int := 7

/-- One of the seven comparisons of `m_game_check_can_incantation` fails. -/
def Inventory.lacks (items req : Inventory) : Bool :=
  items.nourriture < req.nourriture || items.linemate < req.linemate || items.deraumere < req.deraumere ||
    items.sibur < req.sibur || items.mendiane < req.mendiane || items.phiras < req.phiras ||
    items.thystame < req.thystame

/-- The counting loop of `m_game_check_can_incantation`. -/
def countLevel (s : Server) (level : Int) (it : Option Addr) : Option Nat :=
  forEach (fun n a => (s.playerHeap a).map fun p2 => if p2.level = level then n + 1 else n)
    (fun _ a => s.nextOnTile a) s.nextAddr 0 it

/-- `m_game_check_can_incantation`. -/
def gameCheckCanIncantation (s : Server) (pl : Player) (checkItems : Bool) : Option Ret :=
  if pl.level ≥ levelMax then some .error
  else
    let tile := s.map (s.mapIndex pl.pos)
    let reqs := levelReqs pl.level
    if checkItems && tile.items.lacks reqs.inv then some .error
    else (countLevel s pl.level tile.players).map fun (count : Nat) =>
      if (count : Int) < reqs.playerNumber then .error else .success

/-- One turn of the loop of `m_command_real_incantation`. -/
def levelUpTurn (initialLevel : Int) (s : Server) (a : Addr) : Option Server :=
  (s.playerHeap a).map fun p2 =>
    if p2.level = initialLevel then
      (s.modPlayer a fun r => { r with level := r.level + 1 }).createResponseToCommand p2.id "incantation" none
        (some "Level up!")
    else s

/-- The loop of `m_command_real_incantation`. -/
def levelUpLoop (s : Server) (initialLevel : Int) (it : Option Addr) : Option Server :=
  forEach (levelUpTurn initialLevel) Server.nextOnTile s.nextAddr s it

/-- `m_command_real_incantation`. -/
def commandRealIncantation (s : Server) (p : Addr) (pl : Player) (arg : Option Arg) : Option Server :=
  arg.bind fun a =>
    let initialLevel := atoi a.text
    let ko := s.createResponseToCommand pl.id "incantation" none (some "ko")
    if pl.level ≠ initialLevel then some ko
    else (gameCheckCanIncantation s pl false).bind fun
      | .error => some ko
      | .success => (levelUpLoop s initialLevel (s.map (s.mapIndex pl.pos)).players).map fun s' =>
        (s'.record (.completed p initialLevel)).createResponseToCommand pl.id "incantation" none (some "ok")

/-- The stones taken from the tile by `m_command_incantation`. -/
def payRitual (s : Server) (p : Addr) (pl : Player) : Server :=
  (s.modTile (s.mapIndex pl.pos) fun tile =>
    { tile with items := tile.items.minus (levelReqs pl.level).inv }).record (.ritual p pl.level)

/-- The second half of `m_command_incantation`: the completion is put at the front of the buffer of the client
that the lookup by descriptor finds.  The result of the scheduling is ignored. -/
def queueCompletion (cfg : Config) (s : Server) (p : Addr) (pl : Player) (origin : Conn) : Server :=
  match s.gameGetClientFromFd pl.id with
  | none => s
  | some c =>
    let (level, s₁) := s.strdup (snprintf 12 pl.level)
    let s₂ := s₁.modClient c fun cl =>
      { cl with
        eventBuffer :=
          (timeApiScheduleClientEventFront s₁.now cl.eventBuffer (cfg.delay .incantation) (some .realIncantation)
            (some p) (some level) origin).getD cl.eventBuffer }
    s₂.createResponseToCommand pl.id "incantation" none (some "in_progress")

/-- `m_command_incantation`. -/
def commandIncantation (cfg : Config) (s : Server) (p : Addr) (pl : Player) (origin : Conn) : Option Server :=
  let ko := s.createResponseToCommand pl.id "incantation" none (some "ko")
  if pl.level ≥ levelMax then some ko
  else (gameCheckCanIncantation s pl true).map fun
    | .error => ko
    | .success => queueCompletion cfg (payRitual s p pl) p pl origin

/-! ### Answers -/

/-- `m_command_fork`. -/
def commandFork (s : Server) (pl : Player) : Server :=
  s.createResponseToCommand pl.id "fork" none (some "ok")

/-- The places left in a team. -/
def Server.remaining (s : Server) (teamId : Nat) : Option Int :=
  s.teams[teamId]?.map fun t => t.maxPlayers - t.currentPlayers

/-- `m_command_connect_nbr`. -/
def commandConnectNbr (s : Server) (pl : Player) : Option Server :=
  (s.remaining pl.teamId).map fun n =>
    s.createResponseToCommand pl.id "connect_nbr" (some (snprintf 10 n)) none

end Zappy

import Zappy.Commands

/-!
# The entry points of the game (`game.c`)

What `server.c` and `main.c` call: `game_init`, `game_register_player`, `game_execute_command`, `game_kill_player`
and the turns of `game_play`, with the death of a player and the spawning of resources.  `gameStep` takes one of
these steps; a run of the game is any list of them.

What the program draws at random is an argument.  A step that reads through a dangling pointer has no successor.
-/

namespace Zappy

/-! ### Callbacks -/

/-- What one turn of `game_play` leaves open: how many turns the loop of `m_command_expulse` may take, and the
counts that `m_game_random_resource_count` returns for the tiles of a batch. -/
structure Chance where
  fuel : Nat := 0
  counts : Nat → InventoryType → Nat := fun _ _ => 0

/-- Seven counts as an inventory. -/
def inventoryOf (counts : InventoryType → Nat) : Inventory where
  nourriture := counts .nourriture
  linemate := counts .linemate
  deraumere := counts .deraumere
  sibur := counts .sibur
  mendiane := counts .mendiane
  phiras := counts .phiras
  thystame := counts .thystame

@[simp] theorem get_inventoryOf (counts : InventoryType → Nat) (r : InventoryType) :
    (inventoryOf counts).get r = counts r := by
  cases r <;> rfl

/-- `MAP_SZ`. -/
def Server.mapSize (s : Server) : Nat := s.mapX * s.mapY

/-- The index of the tile that turn `i` of the loop of `m_game_spawn_resources` visits. -/
def Server.visited (s : Server) (i : Nat) : Nat :=
  let idx := (s.nextIdx + i) % s.mapSize
  s.mapIndex ⟨idx % s.mapX, idx / s.mapX⟩

/-- One turn of the loop of `m_game_spawn_resources`. -/
def spawnTurn (counts : Nat → InventoryType → Nat) (s : Server) (i : Nat) : Server :=
  let t := s.visited i
  if (s.map t).items.sum > 15 then s
  else
    let items := inventoryOf (counts i)
    (s.modTile t fun tile => { tile with items := tile.items.plus items }).record (.spawned items)

/-- The number of tiles that `m_game_spawn_resources` visits. -/
def Server.spawnBatch (s : Server) : Nat := min (max ((s.mapSize * 5 + 99) / 100) 1) 1000

/-- `m_game_spawn_resources`. -/
def gameSpawnResources (cfg : Config) (counts : Nat → InventoryType → Nat) (s : Server) (ev : Event) : Server :=
  let s₁ := (List.range s.spawnBatch).foldl (spawnTurn counts) s
  { s₁ with
    nextIdx := (s₁.nextIdx + s.spawnBatch) % s₁.mapSize
    eventBuffer := (timeApiScheduleClientEvent s₁.now s₁.eventBuffer cfg.spawnPeriod (some .spawnResources)
      ev.data ev.arg ev.origin).getD s₁.eventBuffer }

/-- The function behind `command_prototypes[c].prototype`. -/
def runCommand (cfg : Config) (fuel : Nat) (s : Server) (p : Addr) (pl : Player) (ev : Event) :
    CommandType → Option Server
  | .avance => some (commandAvance s p pl ev.arg)
  | .droite => some (commandDroite s p pl ev.arg)
  | .gauche => some (commandGauche s p pl ev.arg)
  | .voir => commandVoir s pl
  | .inventaire => some (commandInventaire s pl)
  | .prend => some (commandPrend s p pl ev.arg)
  | .pose => some (commandPose s p pl ev.arg)
  | .expulse => commandExpulse fuel s pl
  | .broadcast => commandBroadcast cfg s pl ev.arg
  | .incantation => commandIncantation cfg s p pl ev.origin
  | .fork => some (commandFork s pl)
  | .connectNbr => commandConnectNbr s pl

/-- `ev->callback(ev->data, ev->arg)`. -/
def runCallback (cfg : Config) (chance : Chance) (ev : Event) (s : Server) : Option Server :=
  match ev.callback with
  | none => some s
  | some .spawnResources => some (gameSpawnResources cfg chance.counts s ev)
  | some (.command c) => ev.data.bind fun p => (s.playerHeap p).bind fun pl =>
      runCommand cfg chance.fuel s p pl ev c
  | some .realIncantation => ev.data.bind fun p => (s.playerHeap p).bind fun pl =>
      commandRealIncantation s p pl ev.arg

/-- `&c->event_buffer`, as a part of the state that can be read. -/
def Server.clientBuffer (c : Addr) (s : Server) : EventBuffer :=
  match s.clientHeap c with
  | some cl => cl.eventBuffer
  | none => {}

/-- `&c->event_buffer`, as a part of the state that can be written. -/
def Server.setClientBuffer (c : Addr) (b : EventBuffer) (s : Server) : Server :=
  s.modClient c fun cl => { cl with eventBuffer := b }

/-- `time_api_process_client_events` on the buffer of a client. -/
def processClient (cfg : Config) (chance : Chance) (c : Addr) (s : Server) : Option Server :=
  timeApiProcessClientEvents (Server.clientBuffer c) (Server.setClientBuffer c) (runCallback cfg chance)
    (fun a s => s.release a) s.now s

/-- `time_api_process_client_events` on the buffer of the server. -/
def processServer (cfg : Config) (chance : Chance) (s : Server) : Option Server :=
  timeApiProcessClientEvents Server.eventBuffer (fun b s => { s with eventBuffer := b }) (runCallback cfg chance)
    (fun a s => s.release a) s.now s

/-! ### Logins -/

/-- `m_game_get_team_id`. -/
def gameGetTeamId (s : Server) (name : String) : Option Nat := s.teams.findIdx? fun t => t.name == name

/-- `TEAM_IS_FULL`. -/
def teamIsFull (t : Team) : Bool := t.currentPlayers ≥ t.maxPlayers

/-- `m_team_add_player_to_team`; `none` for `ERROR`. -/
def teamAddPlayerToTeam (s : Server) (pl : Player) : Option Server :=
  (s.teams[pl.teamId]?).bind fun t =>
    if t.currentPlayers ≥ t.maxPlayers then none
    else some (s.modTeam pl.teamId fun t =>
      { t with
        players := Function.update t.players t.currentPlayers.toNat pl.id
        currentPlayers := t.currentPlayers + 1 })

/-- `m_team_remove_player_from_team`; `none` for `ERROR`. -/
def teamRemovePlayerFromTeam (s : Server) (pl : Player) : Option Server :=
  (s.teams[pl.teamId]?).bind fun t =>
    if t.currentPlayers ≤ 0 then none
    else some (s.modTeam pl.teamId fun t =>
      { t with
        players := Function.update t.players t.currentPlayers.toNat 0
        currentPlayers := t.currentPlayers - 1 })

/-- `m_add_client_to_server`: the first free slot; `none` for `ERROR`. -/
def addClientToServer (s : Server) (c : Addr) : Option Server :=
  (s.clients.findIdx? fun slot => slot == none).map fun i => { s with clients := s.clients.set i (some c) }

/-- `m_remove_client_from_server`; `none` for `ERROR`. -/
def removeClientFromServer (s : Server) (c : Addr) : Option Server :=
  (s.clients.findIdx? fun slot => slot == some c).map fun i => { s with clients := s.clients.set i none }

/-- The three values that `m_game_get_start_pos` takes from `rand`. -/
structure StartDraw where
  x : Nat
  y : Nat
  dir : Nat
  deriving DecidableEq, Repr

def directionOf (n : Nat) : Direction :=
  match n with
  | 0 => .north
  | 1 => .east
  | 2 => .south
  | _ => .west

/-- `TIME_TO_DIE`. -/
def Config.timeToDie (cfg : Config) : Int := cfg.lifeUnit * cfg.startLifeUnits

/-- The player that `game_register_player` builds, before it is put on a tile. -/
def newPlayer (cfg : Config) (s : Server) (fd : Fd) (teamId : Nat) (draw : StartDraw) : Player where
  id := fd
  teamId := teamId
  level := 1
  pos := ⟨draw.x % s.mapX, draw.y % s.mapY⟩
  dir := directionOf (draw.dir % 4)
  dieTime := u64 (s.now + cfg.timeToDie)
  startTime := s.now

/-- The two calls to `malloc` of `game_register_player` and the fields it sets; the client is at the first new
address, the player at the second. -/
def allocPlayer (cfg : Config) (s : Server) (conn : Conn) (fd : Fd) (teamId : Nat) (draw : StartDraw) : Server :=
  let c := s.nextAddr
  let p := s.nextAddr + 1
  { s with
    clientHeap := Function.update s.clientHeap c (some { socketFd := fd, player := p, conn := conn })
    playerHeap := Function.update s.playerHeap p (some (newPlayer cfg s fd teamId draw))
    nextAddr := s.nextAddr + 2
    logins := s.logins ++ [conn] }

/-- `game_register_player` after its two checks. -/
def enterGame (cfg : Config) (s : Server) (conn : Conn) (fd : Fd) (teamId : Nat) (draw : StartDraw) : Server :=
  let c := s.nextAddr
  let p := s.nextAddr + 1
  let pl := newPlayer cfg s fd teamId draw
  let s₁ := gameAddPlayerToTile (allocPlayer cfg s conn fd teamId draw) (s.mapIndex pl.pos) p
  -- the results of these two calls are ignored
  let s₂ := (teamAddPlayerToTeam s₁ pl).getD s₁
  (addClientToServer s₂ c).getD s₂

/-- `game_register_player`, for a login received on `conn`. -/
def gameRegisterPlayer (cfg : Config) (s : Server) (conn : Conn) (fd : Fd) (teamName : String)
    (draw : StartDraw) : Ret × Server :=
  match gameGetTeamId s teamName with
  | none => (.error, s)
  | some teamId =>
    match s.teams[teamId]? with
    | none => (.error, s)
    | some t => if teamIsFull t then (.error, s) else (.success, enterGame cfg s conn fd teamId draw)

/-- `game_register_observer`: the event it schedules is in the buffer of an observer that nothing refers to. -/
def gameRegisterObserver (s : Server) (_fd : Fd) : Ret × Server := (.success, s)

/-- `game_get_team_remaining_clients`, with `-1` for `ERROR`. -/
def gameGetTeamRemainingClients (s : Server) (fd : Fd) : Option Int :=
  match s.gameGetClientFromFd fd with
  | none => some (-1)
  | some c => (s.clientHeap c).bind fun cl => (s.playerHeap cl.player).bind fun pl => s.remaining pl.teamId

/-! ### Commands -/

/-- `command_messages`. -/
def commandMessages : List (CommandType × String) :=
  [(.avance, "avance"), (.droite, "droite"), (.gauche, "gauche"), (.voir, "voir"), (.inventaire, "inventaire"),
    (.prend, "prend"), (.pose, "pose"), (.expulse, "expulse"), (.broadcast, "broadcast"),
    (.incantation, "incantation"), (.fork, "fork"), (.connectNbr, "connect_nbr")]

def commandTypeOf (cmd : String) : Option CommandType :=
  (commandMessages.find? fun entry => entry.2 == cmd).map Prod.fst

/-- `command_prototypes[c].delay` after `game_init` set the one of `incantation` to zero. -/
def prototypeDelay (cfg : Config) : CommandType → Int
  | .incantation => 0
  | c => cfg.delay c

/-- `game_execute_command`, for a command received on `conn`; the result of the scheduling is ignored. -/
def gameExecuteCommand (cfg : Config) (s : Server) (conn : Conn) (fd : Fd) (cmd : String) (arg : Option String) :
    Ret × Server :=
  match s.gameGetClientFromFd fd with
  | none => (.success, s)
  | some c =>
    match commandTypeOf cmd with
    | none => (.error, s)
    | some type =>
      let (copy, s₁) : Option Arg × Server := match arg with
        | some text => ((s.strdup text).map some id)
        | none => (none, s)
      (.success, s₁.modClient c fun cl =>
        { cl with
          eventBuffer :=
            (timeApiScheduleClientEvent s₁.now cl.eventBuffer (prototypeDelay cfg type) (some (.command type))
              (some cl.player) copy conn).getD cl.eventBuffer })

/-! ### Deaths -/

/-- `game_kill_player`, whose result its callers ignore. -/
def gameKillPlayer (s : Server) (fd : Fd) : Server :=
  match s.gameGetClientFromFd fd with
  | none => s
  | some c =>
    match s.clientHeap c with
    | none => s
    | some cl =>
      match s.playerHeap cl.player with
      | none => s
      | some pl =>
        (s.modPlayer cl.player fun r => { r with dieTime := 0, inv := { r.inv with nourriture := 0 } }).record
          (.zeroed cl.player pl.inv.nourriture)

/-- `server_remove_client`, for a client registered on `conn`; `none` for `ERROR`. -/
def serverRemoveClient (s : Server) (fd : Fd) (conn : Conn) : Option Server :=
  if fd > s.maxFd then none else some { s with removeList := s.removeList ++ [(fd, conn)] }

/-- The loop of `game_player_die` that frees the arguments in all ten slots of a buffer. -/
def releaseArgs (b : EventBuffer) (s : Server) : Server :=
  (List.range maxEvents).foldl (fun s i =>
    match (b.events i).arg with
    | some a => s.release a.addr
    | none => s) s

/-- `free` of a player. -/
def freePlayer (p : Addr) (s : Server) : Server := { s with playerHeap := Function.update s.playerHeap p none }

/-- `free` of a client. -/
def freeClient (c : Addr) (s : Server) : Server := { s with clientHeap := Function.update s.clientHeap c none }

/-- The ways out of `game_player_die`. -/
inductive DieOutcome where
  | ate | slotError | teamError | queueError | died
  deriving DecidableEq, Repr

/-- `game_player_die` when a unit of food is left. -/
def eat (cfg : Config) (s : Server) (p : Addr) : Server :=
  (s.modPlayer p fun r =>
    { r with
      inv := { r.inv with nourriture := r.inv.nourriture - 1 }
      dieTime := u64 (r.dieTime + cfg.lifeUnit) }).record (.ate p)

/-- `game_player_die` on the client `cl` at `c`, whose player is `pl`. -/
def gamePlayerDie (cfg : Config) (s : Server) (c : Addr) (cl : Client) (pl : Player) : DieOutcome × Server :=
  if pl.inv.nourriture > 0 then (.ate, eat cfg s cl.player)
  else
    match removeClientFromServer s c with
    | none => (.slotError, s)
    | some s₁ =>
      match teamRemovePlayerFromTeam s₁ pl with
      | none => (.teamError, s₁)
      | some s₂ =>
        let s₃ := (freePlayer cl.player (gameRemovePlayerFromTile s₂ cl.player)).record (.removed cl.player pl.inv)
        let s₄ := s₃.createResponseToCommand cl.socketFd "-" (some "die") none
        match serverRemoveClient s₄ cl.socketFd cl.conn with
        | none => (.queueError, s₄)
        | some s₅ => (.died, freeClient c (releaseArgs cl.eventBuffer s₅))

/-! ### Turns -/

/-- `PLAYER_IS_ALIVE`. -/
def playerIsAlive (pl : Player) (now : Nat) : Bool := pl.dieTime > now

/-- `CLIENT_HAS_ACTIONS`. -/
def clientHasActions (b : EventBuffer) (now : Nat) : Bool := b.count > 0 && (b.events b.head).execTime ≤ now

/-- One turn of the loop of `game_play`, at slot `i`. -/
def gamePlaySlot (cfg : Config) (chance : Chance) (s : Server) (i : Nat) : Option Server :=
  match s.clients[i]? with
  | some (some c) => (s.clientHeap c).bind fun cl => (s.playerHeap cl.player).bind fun pl =>
    if !playerIsAlive pl s.now then some (gamePlayerDie cfg s c cl pl).2
    else if clientHasActions cl.eventBuffer s.now then processClient cfg chance c s
    else some s
  | _ => some s

/-- `game_init_map`: the tile at index `y * width + x` is the one at `(x, y)`. -/
def gameInitMap (width : Nat) (counts : Nat → InventoryType → Nat) (i : Nat) : Tile where
  pos := ⟨i % width, i / width⟩
  items := inventoryOf (counts i)

/-- `game_init`, for the first `nb_teams` names of its argument. -/
def gameInit (cfg : Config) (width height : Nat) (teams : List String) (nbClients : Nat)
    (counts : Nat → InventoryType → Nat) : Server where
  mapX := width
  mapY := height
  map := gameInitMap width counts
  teams := teams.map fun name => { name := name, maxPlayers := ((nbClients / teams.length : Nat) : Int) }
  clients := List.replicate nbClients none
  eventBuffer :=
    if cfg.respawnResources then
      (timeApiScheduleClientEvent 0 {} cfg.spawnPeriod (some .spawnResources) none none 0).getD {}
    else {}
  maxFd := cfg.sockServer

/-! ### The shipped configuration -/

/-- The eighth of the plane around `(dxw, dyw)`, counted from straight ahead; two eighths meet where the ratio of
the coordinates is `tan (M_PI/8)`. -/
def octant (dyw dxw : Int) : Int :=
  let both := (dxw.natAbs + dyw.natAbs) ^ 2
  if both < 2 * dyw.natAbs ^ 2 then if dyw > 0 then 1 else 5
  else if both < 2 * dxw.natAbs ^ 2 then if dxw > 0 then 7 else 3
  else if dyw > 0 then if dxw > 0 then 8 else 2
  else if dxw > 0 then 6 else 4

/-- The delays of the file `config`. -/
def shippedDelay : CommandType → Int
  | .inventaire => 1
  | .incantation => 300
  | .fork => 42
  | .connectNbr => 0
  | _ => 7

/-- The values of the file `config`, with the listening socket on descriptor 3. -/
def shippedConfig : Config where
  lifeUnit := 126
  startLifeUnits := 10
  delay := shippedDelay
  respawnResources := true
  spawnPeriod := 100
  sockServer := 3
  sector := octant

/-! ### Steps -/

/-- The steps of the game.  `accepted` and `send` stand for what `server.c` does to the state of the game outside
the entry points: it raises `m_max_fd`, sends messages, and takes the queue of descriptors to remove. -/
inductive GameAction where
  | tick (t : Nat)
  | register (conn : Conn) (fd : Fd) (teamName : String) (draw : StartDraw)
  | execute (conn : Conn) (fd : Fd) (cmd : String) (arg : Option String)
  | kill (fd : Fd)
  | playSlot (chance : Chance) (i : Nat)
  | playServer (chance : Chance)
  | accepted (fd : Fd)
  | send (fd : Fd) (j : Json)
  | takeRemovals
  | flush

/-- One step of the game. -/
def gameStep (cfg : Config) (s : Server) : GameAction → Option Server
  | .tick t => some { s with now := t }
  | .register conn fd teamName draw => some (gameRegisterPlayer cfg s conn fd teamName draw).2
  | .execute conn fd cmd arg => some (gameExecuteCommand cfg s conn fd cmd arg).2
  | .kill fd => some (gameKillPlayer s fd)
  | .playSlot chance i => gamePlaySlot cfg chance s i
  | .playServer chance => processServer cfg chance s
  | .accepted fd => some { s with maxFd := max s.maxFd fd }
  | .send fd j => some (s.send fd j)
  | .takeRemovals => some { s with removeList := [] }
  | .flush => some { s with outbox := [] }

end Zappy

import Mathlib.Logic.Function.Basic
import Mathlib.Algebra.Ring.Int.Defs
import Mathlib.Algebra.Ring.Nat

/-!
# The data model of the server

The records of `game_structs.h`, the statics of `game.c` and `time_api.c`, and the statics of `server.c` that
`game.c` reaches (`m_max_fd` and the list of descriptors to remove).  Pointers are addresses into two heaps, one of
players and one of clients; `free` empties a cell, so that reading through a dangling pointer has no result.
Addresses are never used again, `int` values whose size nothing depends on are unbounded, and `uint64_t` values are
natural numbers reduced by `u64`.

Ghost data, which no function of the source reads, records what the properties talk about: the connection a login
or a command came from, the messages sent, and a ledger of the resources created and consumed.
-/

namespace Zappy

/-- An address returned by `malloc`. -/
abbrev Addr := Nat

/-- A socket descriptor. -/
abbrev Fd := Nat

/-- Ghost: an accepted socket.  Two accepts never give the same connection, whatever descriptor they return. -/
abbrev Conn := Nat

/-- The conversion of a value to `uint64_t`. -/
def u64 (z : Int) : Nat := (z % 2 ^ 64).toNat

theorem u64_lt (z : Int) : u64 z < 2 ^ 64 := by
  unfold u64; omega

inductive Direction where
  | north | east | south | west
  deriving DecidableEq, Repr

inductive CommandType where
  | avance | droite | gauche | voir | inventaire | prend | pose | expulse | broadcast | incantation | fork
  | connectNbr
  deriving DecidableEq, Repr

/-- `inventory_type`, less `UNKNOWN`. -/
inductive InventoryType where
  | nourriture | linemate | deraumere | sibur | mendiane | phiras | thystame
  deriving DecidableEq, Repr

structure Position where
  x : Nat
  y : Nat
  deriving DecidableEq, Repr

structure Inventory where
  nourriture : Int := 0
  linemate : Int := 0
  deraumere : Int := 0
  sibur : Int := 0
  mendiane : Int := 0
  phiras : Int := 0
  thystame : Int := 0
  deriving DecidableEq, Repr

namespace Inventory

/-- The count of one resource. -/
def get (inv : Inventory) : InventoryType → Int
  | .nourriture => inv.nourriture
  | .linemate => inv.linemate
  | .deraumere => inv.deraumere
  | .sibur => inv.sibur
  | .mendiane => inv.mendiane
  | .phiras => inv.phiras
  | .thystame => inv.thystame

/-- The inventory with `k` more of one resource. -/
def add (inv : Inventory) (r : InventoryType) (k : Int) : Inventory :=
  match r with
  | .nourriture => { inv with nourriture := inv.nourriture + k }
  | .linemate => { inv with linemate := inv.linemate + k }
  | .deraumere => { inv with deraumere := inv.deraumere + k }
  | .sibur => { inv with sibur := inv.sibur + k }
  | .mendiane => { inv with mendiane := inv.mendiane + k }
  | .phiras => { inv with phiras := inv.phiras + k }
  | .thystame => { inv with thystame := inv.thystame + k }

/-- The counts added field by field. -/
def plus (inv more : Inventory) : Inventory where
  nourriture := inv.nourriture + more.nourriture
  linemate := inv.linemate + more.linemate
  deraumere := inv.deraumere + more.deraumere
  sibur := inv.sibur + more.sibur
  mendiane := inv.mendiane + more.mendiane
  phiras := inv.phiras + more.phiras
  thystame := inv.thystame + more.thystame

/-- The counts subtracted field by field. -/
def minus (inv less : Inventory) : Inventory where
  nourriture := inv.nourriture - less.nourriture
  linemate := inv.linemate - less.linemate
  deraumere := inv.deraumere - less.deraumere
  sibur := inv.sibur - less.sibur
  mendiane := inv.mendiane - less.mendiane
  phiras := inv.phiras - less.phiras
  thystame := inv.thystame - less.thystame

/-- `inventory_sum`. -/
def sum (inv : Inventory) : Int :=
  inv.nourriture + inv.linemate + inv.deraumere + inv.sibur + inv.mendiane + inv.phiras + inv.thystame

@[simp] theorem get_add (inv : Inventory) (r r' : InventoryType) (k : Int) :
    (inv.add r k).get r' = if r' = r then inv.get r' + k else inv.get r' := by
  cases r <;> cases r' <;> rfl

@[simp] theorem get_plus (inv more : Inventory) (r : InventoryType) :
    (inv.plus more).get r = inv.get r + more.get r := by
  cases r <;> rfl

@[simp] theorem get_minus (inv less : Inventory) (r : InventoryType) :
    (inv.minus less).get r = inv.get r - less.get r := by
  cases r <;> rfl

@[simp] theorem get_zero (r : InventoryType) : ({} : Inventory).get r = 0 := by
  cases r <;> rfl

end Inventory

structure Player where
  /-- The socket of the player. -/
  id : Fd
  teamId : Nat
  level : Int
  pos : Position
  dir : Direction
  inv : Inventory := {}
  dieTime : Nat := 0
  startTime : Nat := 0
  nextOnTile : Option Addr := none
  prevOnTile : Option Addr := none
  deriving DecidableEq, Repr

structure Tile where
  pos : Position
  items : Inventory := {}
  players : Option Addr := none
  deriving DecidableEq, Repr

structure Team where
  name : String
  maxPlayers : Int
  currentPlayers : Int := 0
  players : Nat → Int := fun _ => 0

/-- The functions that events call back. -/
inductive Callback where
  | command (c : CommandType)
  | realIncantation
  | spawnResources
  deriving DecidableEq, Repr

/-- A heap copy of a string. -/
structure Arg where
  addr : Addr
  text : String
  deriving DecidableEq, Repr

structure Event where
  execTime : Nat := 0
  callback : Option Callback := none
  data : Option Addr := none
  arg : Option Arg := none
  /-- Ghost: the connection whose command led to the event. -/
  origin : Conn := 0
  deriving DecidableEq, Repr

def maxEvents : Nat := 10

structure EventBuffer where
  events : Nat → Event := fun _ => {}
  count : Nat := 0
  head : Nat := 0
  tail : Nat := 0

/-- A client; `game_register_player` sets `player` and nothing resets it, so it is never `NULL`. -/
structure Client where
  socketFd : Fd
  player : Addr
  eventBuffer : EventBuffer := {}
  /-- Ghost: the connection whose login registered the client. -/
  conn : Conn

/-- The values that occur in a message. -/
inductive JsonValue where
  | str (s : String)
  | num (n : Int)
  | numbers (fields : List (String × Int))
  | vision (tiles : List (List String))
  deriving DecidableEq, Repr

/-- A message: the fields of a JSON object in the order they were added. -/
abbrev Json := List (String × JsonValue)

/-- Ghost: what created or consumed resources, and which incantations were paid and completed. -/
inductive Entry where
  | spawned (items : Inventory)
  | ritual (p : Addr) (level : Int)
  | completed (p : Addr) (level : Int)
  | ate (p : Addr)
  | zeroed (p : Addr) (units : Int)
  | removed (p : Addr) (items : Inventory)
  deriving DecidableEq, Repr

/-- What the configuration and the command line fix for a whole run. -/
structure Config where
  lifeUnit : Int
  startLifeUnits : Int
  /-- The delays read from the configuration, before `game_init` takes the one of `incantation` aside. -/
  delay : CommandType → Int
  respawnResources : Bool
  spawnPeriod : Int
  /-- `m_sock_server`, the listening socket. -/
  sockServer : Fd
  /-- The floating-point expression of `compute_broadcast_direction`: for `dyw` and `dxw`, the value of
  `(int)floor((phi + M_PI/8.0) / (M_PI/4.0)) + 1`. -/
  sector : Int → Int → Int

/-- `m_server`, `m_ctx.next_idx` and the clock, with the heaps. -/
structure Server where
  mapX : Nat
  mapY : Nat
  map : Nat → Tile
  teams : List Team
  clients : List (Option Addr)
  eventBuffer : EventBuffer := {}
  nextIdx : Nat := 0
  /-- `m_time->current_time_units`. -/
  now : Nat := 0
  playerHeap : Addr → Option Player := fun _ => none
  clientHeap : Addr → Option Client := fun _ => none
  nextAddr : Addr := 0
  /-- `m_max_fd`. -/
  maxFd : Fd
  /-- `m_clients` of `server.c`, the descriptors waiting for removal, each with the connection (ghost) of the
  client whose death queued it. -/
  removeList : List (Fd × Conn) := []
  /-- Ghost: the argument copies given to `free`. -/
  released : List Addr := []
  /-- Ghost: the messages sent since the network layer last took them, in order. -/
  outbox : List (Fd × Json) := []
  ledger : List Entry := []
  /-- Ghost: the connections whose login has registered a player. -/
  logins : List Conn := []

end Zappy

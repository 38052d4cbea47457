import Zappy.Structs

/-!
# Messages and lookups

The functions of `server.c` that send a message, the C library's conversions between numbers and strings, and the
updates of one heap cell or one tile that the functions of `game.c` are made of.
-/

namespace Zappy

inductive Ret where
  | success | error
  deriving DecidableEq, Repr

/-- `snprintf(buf, size, "%d", z)`. -/
def snprintf (size : Nat) (z : Int) : String := String.ofList ((toString z).toList.take (size - 1))

def isSpace (c : Char) : Bool := c == ' ' || (9 ≤ c.toNat && c.toNat ≤ 13)

private def digits (cs : List Char) : Nat :=
  (cs.takeWhile Char.isDigit).foldl (fun n c => 10 * n + (c.toNat - 48)) 0

/-- `strtol` in base ten, which stops at the bounds of a `long`. -/
def strtol (s : String) : Int :=
  let n : Int := match s.toList.dropWhile isSpace with
    | '-' :: cs => -digits cs
    | '+' :: cs => digits cs
    | cs => digits cs
  max (-2 ^ 63) (min n (2 ^ 63 - 1))

/-- `atoi`: what `strtol` reads, cut to an `int`. -/
def atoi (s : String) : Int := (strtol s).bmod (2 ^ 32)

example : atoi "4294967303" = 7 := by decide +kernel

namespace Server

variable (s : Server)

/-- `MAP(x, y)`, as an index into the map. -/
def mapIndex (pos : Position) : Nat := pos.y * s.mapX + pos.x

def modPlayer (p : Addr) (f : Player → Player) : Server :=
  { s with playerHeap := Function.update s.playerHeap p ((s.playerHeap p).map f) }

def modClient (c : Addr) (f : Client → Client) : Server :=
  { s with clientHeap := Function.update s.clientHeap c ((s.clientHeap c).map f) }

def modTile (i : Nat) (f : Tile → Tile) : Server :=
  { s with map := Function.update s.map i (f (s.map i)) }

def modTeam (i : Nat) (f : Team → Team) : Server := { s with teams := s.teams.modify i f }

/-- Ghost: an entry of the ledger. -/
def record (e : Entry) : Server := { s with ledger := s.ledger ++ [e] }

/-- `free` of an argument copy. -/
def release (a : Addr) : Server := { s with released := s.released ++ [a] }

/-- `send`, of a JSON text. -/
def send (fd : Fd) (j : Json) : Server := { s with outbox := s.outbox ++ [(fd, j)] }

/-- `strdup`. -/
def strdup (text : String) : Arg × Server := (⟨s.nextAddr, text⟩, { s with nextAddr := s.nextAddr + 1 })

/-- `m_game_get_client_from_fd`: the first client with this socket. -/
def gameGetClientFromFd (fd : Fd) : Option Addr :=
  s.clients.findSome? fun slot =>
    slot.bind fun c => (s.clientHeap c).bind fun cl => if cl.socketFd = fd then some c else none

end Server

/-- The object that `server_create_response_to_command` sends. -/
def response (cmd : String) (arg status : Option String) : Json :=
  [("type", .str "response"), ("cmd", .str cmd)] ++ (arg.map fun a => ("arg", .str a)).toList ++
    (status.map fun t => ("status", .str t)).toList

/-- `server_create_response_to_command`. -/
def Server.createResponseToCommand (s : Server) (fd : Fd) (cmd : String) (arg status : Option String) : Server :=
  s.send fd (response cmd arg status)

/-- `m_create_json_response`. -/
def Server.createJsonResponse (s : Server) (fd : Fd) (type msg : String) (args : Option String) : Server :=
  s.send fd ([("type", .str type), ("msg", .str msg)] ++ (args.map fun a => ("args", .str a)).toList)

end Zappy

import Zappy.Game

/-!
# The server loop (`server.c`, `ssl_al.c`, `ssl_al_workers.c`, `main.c`)

The handling of a message, and the machine around the game: the descriptors that are open and whose connection
each belongs to, the sessions of `ssl_table.c`, the handshakes given to the worker thread, and the place `main_loop`
has come to.  The kernel, the worker and the peers act through the arguments of the actions: which sockets can be
read, what a peer has sent, which closed descriptor `accept` returns, how a handshake ends.

Bytes and frames are left out: what a socket holds is a message or the end of the stream.  A peer is heard only
through its own session, so what comes in on a descriptor whose session belongs to another connection is an error
of `SSL_read`.
-/

namespace Zappy

/-! ### Messages from clients -/

/-- `SERVER_KEY`. -/
def serverKey : String := "SOME_KEY"

/-- The fields of an object that are strings, as the handlers look them up. -/
structure ClientMessage where
  type : Option String := none
  cmd : Option String := none
  arg : Option String := none
  key : Option String := none
  role : Option String := none
  teamName : Option String := none
  deriving DecidableEq, Repr

variable (cfg : Config) (s : Server) (conn : Conn) (fd : Fd) (msg : ClientMessage) (draw : StartDraw)

/-- `m_handle_cmd`. -/
def handleCmd : Ret × Server :=
  match msg.cmd with
  | none => (.error, s)
  | some cmd => gameExecuteCommand cfg s conn fd cmd msg.arg

/-- `m_handle_login_admin`. -/
def handleLoginAdmin : Ret × Server := (.error, s.createJsonResponse fd "ko" "Not handled yet" none)

/-- `m_handle_login_observer`. -/
def handleLoginObserver : Ret × Server :=
  match gameRegisterObserver s fd with
  | (.error, s₁) => (.error, s₁.createJsonResponse fd "error" "Failed to register observer" none)
  | (.success, s₁) => (.success, s₁.createJsonResponse fd "ok" "Observer registered" none)

/-- The object that `m_handle_login_client` sends. -/
def welcome (s : Server) (remaining : Int) : Json :=
  [("type", .str "welcome"), ("remaining_clients", .num remaining),
    ("map_size", .numbers [("x", s.mapX), ("y", s.mapY)])]

/-- `m_handle_login_client`; no result when the count of places left is read through a dangling pointer. -/
def handleLoginClient : Option (Ret × Server) :=
  match msg.teamName with
  | none => some (.error, s.createJsonResponse fd "error" "Invalid team name" none)
  | some teamName =>
    match gameRegisterPlayer cfg s conn fd teamName draw with
    | (.error, s₁) => some (.error, s₁.createJsonResponse fd "error" "Failed to register player" none)
    | (.success, s₁) => (gameGetTeamRemainingClients s₁ fd).map fun n => (.success, s₁.send fd (welcome s₁ n))

/-- `m_handle_login`, with the handlers of `m_login_handlers` by role. -/
def handleLogin : Option (Ret × Server) :=
  match msg.key with
  | none => some (.error, s)
  | some key =>
    if key ≠ serverKey then some (.error, s.createJsonResponse fd "error" "Invalid key" none)
    else
      match msg.role with
      | none => some (.error, s.createJsonResponse fd "error" "Invalid team name" none)
      | some "player" => handleLoginClient cfg s conn fd msg draw
      | some "admin" => some (handleLoginAdmin s fd)
      | some "observer" => some (handleLoginObserver s fd)
      | some _ => some (.error, s.createJsonResponse fd "error" "Invalid role" none)

/-- `m_handle_client_message`, for a text received on `conn`; `none` for a text that `cJSON_Parse` does not parse. -/
def handleClientMessage (text : Option ClientMessage) : Option (Ret × Server) :=
  match text with
  | none => some (.error, s)
  | some msg =>
    let handle (result : Option (Ret × Server)) : Option (Ret × Server) := result.map fun
      | (.error, s₁) => (.error, s₁.createJsonResponse fd "error" "Failed to handle message" none)
      | (.success, s₁) => (.success, s₁)
    match msg.type with
    | none => some (.error, s.createJsonResponse fd "error" "Invalid JSON format" none)
    | some "cmd" => handle (some (handleCmd cfg s conn fd msg))
    | some "login" => handle (handleLogin cfg s conn fd msg draw)
    | some _ => some (.error, s.createJsonResponse fd "error" "Unknown message type" none)

/-! ### The machine -/

/-- Where `main_loop` is: before and after `ssl_al_lookup_new_clients`, among the readable descriptors, in
`m_remove_clients` with the entries left, or at a slot of `game_play`. -/
inductive Phase where
  | lookup
  | select
  | scan (todo : List Fd)
  | drain (todo : List (Fd × Conn))
  | play (i : Nat)
  deriving DecidableEq, Repr

structure Machine where
  server : Server
  phase : Phase := .lookup
  /-- `m_read_fds`. -/
  readFds : Fd → Bool
  /-- Ghost: the connection of an open descriptor. -/
  owner : Fd → Option Conn
  /-- `ssl_table.c`: the connection that an entry was set up with. -/
  session : Fd → Option Conn := fun _ => none
  /-- `task_fds_q`. -/
  handshakes : List Fd := []
  /-- `task_fds_dq`, with the connection each handshake was done with. -/
  finished : List (Fd × Conn) := []
  nextConn : Conn := 1
  /-- Ghost: what was written to the connections. -/
  wire : List (Conn × Json) := []

/-- A push to one of the rings of 1024 tasks, which is empty again when `tail` has caught up with `head`. -/
def pushTask {α : Type} (tasks : List α) (task : α) : List α :=
  if tasks.length + 1 = 1024 then [] else tasks ++ [task]

/-- The entries that `m_remove_clients` visits: `FT_LIST_GET_FIRST` gives the second node of a longer list. -/
def drainOrder {α : Type} : List α → List α
  | _ :: e :: l => e :: l
  | l => l

/-- What a readable socket holds. -/
inductive Input where
  | closed
  | text (msg : Option ClientMessage)
  deriving DecidableEq, Repr

namespace Machine

variable (m : Machine)

/-- `send` writes to the session of the descriptor, if there is one. -/
def deliver : Machine :=
  { m with
    wire := m.wire ++ m.server.outbox.filterMap fun e => (m.session e.1).map fun k => (k, e.2)
    server := { m.server with outbox := [] } }

/-- `close` of the C library. -/
def closeFd (fd : Fd) : Machine := { m with owner := Function.update m.owner fd none }

/-- `ws_close`. -/
def wsClose (fd : Fd) : Machine := { m.closeFd fd with session := Function.update m.session fd none }

/-- `REMOVE_CLIENT`. -/
def removeClient (fd : Fd) : Machine :=
  { m with readFds := Function.update m.readFds fd false, server := gameKillPlayer m.server fd }.wsClose fd

/-- `cb_on_accept_success`. -/
def onAcceptSuccess (fd : Fd) : Machine :=
  { m with
    readFds := Function.update m.readFds fd true
    server := { m.server with maxFd := max m.server.maxFd fd }.createJsonResponse fd "bienvenue"
      "Whoa! Knock knock, whos there?" none }.deliver

/-- `on_handshake_done`, for a session set up with `k`; `ok` when the request of the peer can be read. -/
def onHandshakeDone (fd : Fd) (k : Conn) (ok : Bool) : Machine :=
  let m₁ := { m with session := Function.update m.session fd (some k) }
  if ok ∧ m.owner fd = some k then m₁.onAcceptSuccess fd else m₁.closeFd fd

/-- One turn of `handshake_worker`, on its next task. -/
def handshakeWorker (ok : Bool) : Option Machine :=
  match m.handshakes with
  | [] => none
  | fd :: rest =>
    let m₁ := { m with handshakes := rest }
    match m.owner fd with
    | some k => if ok then some { m₁ with finished := pushTask m.finished (fd, k) } else some (m₁.closeFd fd)
    | none => some m₁

/-- `m_handle_new_client`, when `accept` returns `fd`. -/
def handleNewClient (fd : Fd) : Option Machine :=
  if m.owner fd = none then some { m with
    owner := Function.update m.owner fd (some m.nextConn)
    handshakes := pushTask m.handshakes fd
    nextConn := m.nextConn + 1 }
  else none

/-- The connection that is heard on a descriptor. -/
def heard (fd : Fd) : Option Conn := if m.session fd = m.owner fd then m.owner fd else none

/-- `m_handle_client_event`, with the removal after an error. -/
def handleClientEvent (cfg : Config) (fd : Fd) (input : Input) (draw : StartDraw) : Option Machine :=
  match m.heard fd, input with
  | some k, .text msg => (handleClientMessage cfg m.server k fd draw msg).map fun
    | (.error, s₁) => ({ m with server := s₁ }.deliver).removeClient fd
    | (.success, s₁) => { m with server := s₁ }.deliver
  | _, _ => some (m.removeClient fd)

end Machine

/-- The steps of the machine. -/
inductive MachineAction where
  | tick (t : Nat)
  | handshake (ok : Bool)
  | handshakeDone (ok : Bool)
  | lookupEnd
  | select (ready : List Fd)
  | acceptFailed
  | accept (fd : Fd)
  | receive (input : Input) (draw : StartDraw)
  | scanEnd
  | remove
  | drainEnd
  | playSlot (chance : Chance)
  | playServer (chance : Chance)

/-- One step of the machine.  `select` fails on a closed descriptor, which ends `main_loop`. -/
def machineStep (cfg : Config) (m : Machine) : MachineAction → Option Machine
  | .tick t =>
    if (m.phase = .lookup ∨ m.phase = .play 0) ∧ m.server.now ≤ t then
      some { m with server := { m.server with now := t } }
    else none
  | .handshake ok => m.handshakeWorker ok
  | .handshakeDone ok =>
    match m.phase, m.finished with
    | .lookup, (fd, k) :: rest => some ({ m with finished := rest }.onHandshakeDone fd k ok)
    | _, _ => none
  | .lookupEnd => if m.phase = .lookup ∧ m.finished = [] then some { m with phase := .select } else none
  | .select ready =>
    if m.phase = .select ∧ (List.range (m.server.maxFd + 1)).all (fun fd => !m.readFds fd || (m.owner fd).isSome) ∧
        ready.Pairwise (· < ·) ∧ ∀ fd ∈ ready, m.readFds fd ∧ fd ≤ m.server.maxFd then
      some { m with phase := if ready = [] then .play 0 else .scan ready }
    else none
  | .acceptFailed =>
    match m.phase with
    | .scan (fd :: rest) => if fd = cfg.sockServer then some { m with phase := .scan rest } else none
    | _ => none
  | .accept new =>
    match m.phase with
    | .scan (fd :: rest) =>
      if fd = cfg.sockServer then { m with phase := .scan rest }.handleNewClient new else none
    | _ => none
  | .receive input draw =>
    match m.phase with
    | .scan (fd :: rest) =>
      if fd = cfg.sockServer then none else { m with phase := .scan rest }.handleClientEvent cfg fd input draw
    | _ => none
  | .scanEnd =>
    match m.phase with
    | .scan [] => some { m with
        phase := .drain (drainOrder m.server.removeList)
        server := { m.server with removeList := [] } }
    | _ => none
  | .remove =>
    match m.phase with
    | .drain ((fd, _) :: rest) => some ({ m with phase := .drain rest }.removeClient fd)
    | _ => none
  | .drainEnd =>
    match m.phase with
    | .drain [] => some { m with phase := .play 0 }
    | _ => none
  | .playSlot chance =>
    match m.phase with
    | .play i =>
      if i < m.server.clients.length then
        (gamePlaySlot cfg chance m.server i).map fun s => { m with server := s, phase := .play (i + 1) }.deliver
      else none
    | _ => none
  | .playServer chance =>
    match m.phase with
    | .play i =>
      if i = m.server.clients.length then
        (processServer cfg chance m.server).map fun s => { m with server := s, phase := .lookup }.deliver
      else none
    | _ => none

/-- The machine after `init_server` and `game_init`. -/
def machineInit (cfg : Config) (width height : Nat) (teams : List String) (nbClients : Nat)
    (counts : Nat → InventoryType → Nat) : Machine where
  server := gameInit cfg width height teams nbClients counts
  readFds := fun fd => fd = cfg.sockServer
  owner := fun fd => if fd = cfg.sockServer then some 0 else none

end Zappy

import Zappy.Vision
import Zappy.Network

/-!
# The Java client (`CommandManager.java`, `Player.java`, `Position.java`)

What the client does with a message of the server.  A computation may end in an exception, which `onMessage` catches:
what was changed before it stays changed.  The AI is asked at most once a message; its answer, the commands to queue
or an exception, is an argument of the computation.
-/

namespace Zappy

/-! ### Position -/

structure ClientPosition where
  x : Int := 0
  y : Int := 0
  direction : Int := 0
  worldWidth : Int
  worldHeight : Int
  deriving DecidableEq, Repr

namespace ClientPosition

variable (pos : ClientPosition)

def moveForward : ClientPosition :=
  match pos.direction with
  | 0 => { pos with y := (pos.y - 1 + pos.worldHeight).tmod pos.worldHeight }
  | 1 => { pos with x := (pos.x + 1).tmod pos.worldWidth }
  | 2 => { pos with y := (pos.y + 1).tmod pos.worldHeight }
  | 3 => { pos with x := (pos.x - 1 + pos.worldWidth).tmod pos.worldWidth }
  | _ => pos

def turnLeft : ClientPosition := { pos with direction := (pos.direction + 3).tmod 4 }

def turnRight : ClientPosition := { pos with direction := (pos.direction + 1).tmod 4 }

end ClientPosition

/-! ### State -/

structure Command where
  type : CommandType
  argument : String := ""
  deriving DecidableEq, Repr

/-- Ghost: what a handler of notices has read from a message. -/
inductive Notice where
  | heard (sourceDirection : Int) (text : String)
  | kicked (fromDirection : Int)
  deriving DecidableEq, Repr

/-- `CommandManager`, with the fields of its `Player`.  The world, the position and the AI are set together. -/
structure JavaClient where
  teamName : String
  pendingResponses : Int := 0
  commandQueue : List Command := []
  dead : Bool := false
  sessionOpen : Bool := true
  level : Int := 1
  life : Int := 1260
  nour : Int := 0
  world : Option World := none
  position : Option ClientPosition := none
  inventory : Resource → Option Int := fun _ => none
  /-- Ghost: the texts sent. -/
  sent : List ClientMessage := []
  /-- Ghost: the notices read. -/
  notices : List Notice := []

abbrev ClientM := EStateM Unit JavaClient

/-- What the AI answers when it is asked. -/
abbrev Advice := Option (List Command)

/-! ### JSON -/

def Json.has (msg : Json) (key : String) : Bool := (msg.lookup key).isSome

/-- `get(key).getAsString()`. -/
def Json.getAsString (msg : Json) (key : String) : ClientM String :=
  match msg.lookup key with
  | some (.str s) => pure s
  | some (.num n) => pure (toString n)
  | _ => throw ()

/-- `get(key).getAsInt()`. -/
def Json.getAsInt (msg : Json) (key : String) : ClientM Int :=
  match msg.lookup key with
  | some (.num n) => pure n
  | some (.str s) => match s.toInt? with
    | some n => pure n
    | none => throw ()
  | _ => throw ()

/-- `msg.has(key) ? msg.get(key).getAsString() : default`. -/
def Json.getOr (msg : Json) (key default : String) : ClientM String :=
  if msg.has key then msg.getAsString key else pure default

/-- A value that Java would find `null`. -/
def orThrow {α : Type} : Option α → ClientM α
  | some a => pure a
  | none => throw ()

/-! ### Sending -/

/-- `CommandType.getName`. -/
def CommandType.getName (c : CommandType) : String := (commandMessages.lookup c).getD ""

/-- `CommandType.getTimeUnits`. -/
def CommandType.getTimeUnits : CommandType → Int
  | .inventaire => 1
  | .incantation => 300
  | .fork => 42
  | .connectNbr => 0
  | _ => 7

/-- `CommandType.fromName`. -/
def fromName (name : String) : ClientM CommandType := orThrow (commandTypeOf name)

/-- `WebSocketClient.send`. -/
def sendMsg (msg : ClientMessage) : ClientM Unit :=
  modify fun c => if c.sessionOpen ∧ ¬ c.dead then { c with sent := c.sent ++ [msg] } else c

/-- `createCommandJsonMessage`. -/
def createCommandJsonMessage (cmd : Command) : ClientMessage :=
  { type := some "cmd"
    cmd := some cmd.type.getName
    arg := if cmd.argument.isEmpty then none else some cmd.argument }

/-- `sendCommand`. -/
def sendCommand (cmd : Command) : ClientM Unit := do
  if (← get).dead then return
  modify fun c => { c with pendingResponses := c.pendingResponses + 1 }
  sendMsg (createCommandJsonMessage cmd)

/-- The sending loop of `handleResponse`, which takes the commands of the queue in turn.  A dead client takes them
all. -/
def sendLoop : List Command → ClientM Unit
  | [] => pure ()
  | cmd :: rest => do
    if (← get).pendingResponses < 10 then
      modify fun c => { c with commandQueue := rest }
      sendCommand cmd
      sendLoop rest

/-- `createLoginJsonMessage`. -/
def createLoginJsonMessage (teamName : String) : ClientMessage :=
  { type := some "login", key := some "SOME_KEY", role := some "player", teamName := some teamName }

def closeSession : ClientM Unit := modify fun c => { c with sessionOpen := false }

def addCommands (cmds : List Command) : ClientM Unit :=
  modify fun c => { c with commandQueue := c.commandQueue ++ cmds }

/-! ### Answers -/

def addLife (life : Int) : ClientM Unit := modify fun c => { c with life := c.life + life }

/-- `handleAvanceResponse`, `handleDroiteResponse` and `handleGaucheResponse`, after the status is read. -/
def moved (status : String) (move : ClientPosition → ClientPosition) : ClientM Unit := do
  if status = "ok" then
    let pos ← orThrow (← get).position
    modify fun c => { c with position := some (move pos) }

/-- `handleVoirResponse`. -/
def handleVoirResponse (advice : Advice) (msg : Json) : ClientM Unit := do
  match msg.lookup "vision" with
  | some (.vision data) =>
    let c ← get
    let world ← orThrow c.world
    let pos ← orThrow c.position
    let seen ← orThrow (world.updateVisibleTiles pos.x pos.y pos.direction c.level data)
    modify fun c => { c with world := some seen }
    addCommands (← orThrow advice)
  | _ => throw ()

/-- `handleInventaireResponse`. -/
def handleInventaireResponse (msg : Json) : ClientM Unit := do
  match msg.lookup "inventaire" with
  | some (.numbers fields) => fields.forM fun entry => do
    let resource ← orThrow (Resource.fromString entry.1)
    modify fun c => { c with inventory := Function.update c.inventory resource (some entry.2) }
    let _ ← orThrow (← get).world
  | _ => throw ()

/-- `handlePrendResponse`. -/
def handlePrendResponse (msg : Json) : ClientM Unit := do
  let status ← msg.getOr "status" "ko"
  let item ← msg.getOr "arg" "null"
  if status = "ok" then
    let resource ← orThrow (Resource.fromString item)
    modify fun c =>
      { c with inventory := Function.update c.inventory resource (some ((c.inventory resource).elim 1 (· + 1))) }
    if resource = .nourriture then
      addLife 126
      modify fun c => { c with nour := c.nour + 1 }

/-- `handlePoseResponse`. -/
def handlePoseResponse (msg : Json) : ClientM Unit := do
  let status ← msg.getOr "status" "ko"
  let item ← msg.getOr "arg" "null"
  if status = "ok" then
    let resource ← orThrow (Resource.fromString item)
    modify fun c => { c with
      inventory := Function.update c.inventory resource
        ((c.inventory resource).bind fun v => if v > 1 then some (v - 1) else none) }

/-- `handleDieResponse`. -/
def handleDieResponse (msg : Json) : ClientM Unit := do
  if (← msg.getOr "arg" "null") = "die" then closeSession

/-- The branches of `Player.handleResponse`. -/
def handleAnswer (advice : Advice) (cmd : String) (msg : Json) : ClientM Unit := do
  match cmd with
  | "avance" => moved (← msg.getOr "status" "ko") ClientPosition.moveForward
  | "droite" => moved (← msg.getAsString "status") ClientPosition.turnRight
  | "gauche" => moved (← msg.getAsString "status") ClientPosition.turnLeft
  | "voir" => handleVoirResponse advice msg
  | "inventaire" => handleInventaireResponse msg
  | "prend" => handlePrendResponse msg
  | "pose" => handlePoseResponse msg
  | "expulse" | "broadcast" | "fork" => let _ ← msg.getOr "status" "ko"
  | "connect_nbr" => if msg.has "arg" then let _ ← msg.getAsInt "arg"
  | _ => pure ()

/-- `Player.handleResponse`. -/
def playerHandleResponse (advice : Advice) (msg : Json) : ClientM Unit := do
  let cmd ← if msg.has "cmd" then msg.getAsString "cmd" else msg.getAsString "command"
  if cmd = "-" then handleDieResponse msg
  else
    handleAnswer advice cmd msg
    addLife (-(← fromName cmd).getTimeUnits)
    if cmd ≠ "voir" ∧ (← get).pendingResponses = 0 then
      let _ ← orThrow (← get).world
      addCommands (← orThrow advice)

/-! ### Messages -/

/-- `handleBienvenueMsg`. -/
def handleBienvenueMsg (msg : Json) : ClientM Unit := do
  let _ ← msg.getAsString "msg"
  sendMsg (createLoginJsonMessage (← get).teamName)

/-- `handleWelcomeMsg`. -/
def handleWelcomeMsg (msg : Json) : ClientM Unit := do
  let _ ← msg.getAsInt "remaining_clients"
  match msg.lookup "map_size" with
  | some (.numbers mapSize) =>
    let x ← orThrow (mapSize.lookup "x")
    let y ← orThrow (mapSize.lookup "y")
    modify fun c => { c with
      world := some ⟨x, y, fun _ _ _ => 0⟩
      position := some { worldWidth := x, worldHeight := y } }
  | _ => pure ()
  sendCommand { type := .voir }

/-- `handleResponseMsg`. -/
def handleResponseMsg (advice : Advice) (msg : Json) : ClientM Unit := do
  modify fun c => { c with pendingResponses := c.pendingResponses - 1 }
  playerHandleResponse advice msg

/-- `handleBroadcastMsg`, whose further parsing of the text catches its exceptions. -/
def handleBroadcastMsg (msg : Json) : ClientM Unit := do
  let dir ← msg.getAsInt "source_direction"
  let rawMsg ← msg.getAsString "arg"
  modify fun c => { c with notices := c.notices ++ [.heard dir rawMsg] }

/-- `handleKickMsg`. -/
def handleKickMsg (msg : Json) : ClientM Unit := do
  let dir ← msg.getAsInt "from_direction"
  modify fun c => { c with notices := c.notices ++ [.kicked dir] }

/-- `handleErrorMsg`. -/
def handleErrorMsg (msg : Json) : ClientM Unit := do
  let _ ← msg.getOr "arg" "Unknown"
  closeSession

/-- The handler of a message in `CommandManager.handleResponse`. -/
def handleMsg (advice : Advice) (msg : Json) : ClientM Unit := do
  match ← msg.getOr "type" "response" with
  | "bienvenue" => handleBienvenueMsg msg
  | "welcome" => handleWelcomeMsg msg
  | "response" => handleResponseMsg advice msg
  | "broadcast" => handleBroadcastMsg msg
  | "kick" => handleKickMsg msg
  | "event" => let _ ← msg.getAsString "event"
  | "error" => handleErrorMsg msg
  | "cmd" => playerHandleResponse advice msg
  | _ => pure ()

/-- `CommandManager.handleResponse`. -/
def handleResponse (advice : Advice) (msg : Json) : ClientM Unit := do
  handleMsg advice msg
  sendLoop (← get).commandQueue

end Zappy

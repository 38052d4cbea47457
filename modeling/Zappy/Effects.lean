import Zappy.Game
import Zappy.TileLists
import Zappy.Lib.Run
import Mathlib.Logic.Relation

/-!
# What a step of the game can do

`Effect` lists the elementary writes that the functions of `game.c` are made of, each with what the function has
checked by then.  `gameStep_effects` shows that every step is a sequence of them, so an invariant of the game is
proved by one case for each write.
-/

namespace Zappy

open LinkedList Relation

/-- Every event buffer of a client is well formed, and the buffer of the server calls back nothing but
`m_game_spawn_resources`. -/
structure BuffersWF (s : Server) : Prop where
  client : ∀ c cl, s.clientHeap c = some cl → cl.eventBuffer.WF
  server : ∀ i cb, (s.eventBuffer.events i).callback = some cb → cb = .spawnResources

/-- The elementary writes of a step. -/
inductive Effect (cfg : Config) : GameAction → Server → Server → Prop
  /-- Anything that leaves the map, the teams, the slots, the buffers, both heaps, the descriptors to remove and the
  ledger alone. -/
  | quiet {a : GameAction} {s : Server} (now nextIdx nextAddr maxFd : Nat) (released : List Addr)
      (outbox : List (Fd × Json)) (haddr : s.nextAddr ≤ nextAddr) :
      Effect cfg a s { s with
        now := now, nextIdx := nextIdx, nextAddr := nextAddr, maxFd := maxFd,
        released := released, outbox := outbox }
  | takeRemovals {s : Server} : Effect cfg .takeRemovals s { s with removeList := [] }
  | serverBuffer {a : GameAction} {s : Server} (b : EventBuffer)
      (hb : ∀ i cb, (b.events i).callback = some cb →
        cb = .spawnResources ∨ ∃ j, (s.eventBuffer.events j).callback = some cb) :
      Effect cfg a s { s with eventBuffer := b }
  | enter {s : Server} {conn : Conn} {fd : Fd} {teamName : String} {draw : StartDraw} {teamId : Nat} {t : Team}
      (hname : gameGetTeamId s teamName = some teamId) (ht : s.teams[teamId]? = some t)
      (hfull : t.currentPlayers < t.maxPlayers) :
      Effect cfg (.register conn fd teamName draw) s (enterGame cfg s conn fd teamId draw)
  | schedule {s : Server} {conn : Conn} {fd : Fd} {cmd : String} {arg : Option String} {c : Addr} {cl : Client}
      {delay : Int} {type : CommandType} {copy : Option Arg} {b : EventBuffer}
      (hc : s.gameGetClientFromFd fd = some c) (hcl : s.clientHeap c = some cl)
      (hb : timeApiScheduleClientEvent s.now cl.eventBuffer delay (some (.command type)) (some cl.player) copy
        conn = some b) :
      Effect cfg (.execute conn fd cmd arg) s (s.setClientBuffer c b)
  | kill {s : Server} {fd : Fd} {c : Addr} {cl : Client} {pl : Player}
      (hc : s.gameGetClientFromFd fd = some c) (hcl : s.clientHeap c = some cl)
      (hpl : s.playerHeap cl.player = some pl) :
      Effect cfg (.kill fd) s ((s.modPlayer cl.player fun r =>
        { r with dieTime := 0, inv := { r.inv with nourriture := 0 } }).record (.zeroed cl.player pl.inv.nourriture))
  | eat {s : Server} {chance : Chance} {i : Nat} {c : Addr} {cl : Client} {pl : Player}
      (hi : s.clients[i]? = some (some c)) (hcl : s.clientHeap c = some cl)
      (hpl : s.playerHeap cl.player = some pl) (hfood : 0 < pl.inv.nourriture) :
      Effect cfg (.playSlot chance i) s (eat cfg s cl.player)
  | die {s : Server} {chance : Chance} {i : Nat} {c : Addr} {cl : Client} {pl : Player}
      (hi : s.clients[i]? = some (some c)) (hcl : s.clientHeap c = some cl)
      (hpl : s.playerHeap cl.player = some pl) (hfood : pl.inv.nourriture ≤ 0) :
      Effect cfg (.playSlot chance i) s (gamePlayerDie cfg s c cl pl).2
  | pop {s : Server} {chance : Chance} {i : Nat} {c : Addr} {cl : Client}
      (hi : s.clients[i]? = some (some c)) (hcl : s.clientHeap c = some cl) (hcount : 0 < cl.eventBuffer.count) :
      Effect cfg (.playSlot chance i) s (s.setClientBuffer c cl.eventBuffer.pop)
  | clearArg {s : Server} {chance : Chance} {i : Nat} {c : Addr} {cl : Client} {j : Nat}
      (hcl : s.clientHeap c = some cl) (hq : (cl.eventBuffer.clearArg j).queued = cl.eventBuffer.queued) :
      Effect cfg (.playSlot chance i) s (s.setClientBuffer c (cl.eventBuffer.clearArg j))
  | turn {s : Server} {chance : Chance} {i : Nat} {p : Addr} {pl : Player} (dir : Direction)
      (hpl : s.playerHeap p = some pl) :
      Effect cfg (.playSlot chance i) s (s.modPlayer p fun r => { r with dir := dir })
  /-- The player `p` moves to the tile ahead of `q`. -/
  | move {s : Server} {chance : Chance} {i : Nat} {p q : Addr} {pl ql : Player} (hpl : s.playerHeap p = some pl)
      (hql : s.playerHeap q = some ql) :
      Effect cfg (.playSlot chance i) s (gameMovePlayer s p (stepAhead s ql.pos ql.dir))
  | take {s : Server} {chance : Chance} {i : Nat} {p : Addr} {pl : Player} {r : InventoryType}
      (hpl : s.playerHeap p = some pl) (hr : 0 < (s.map (s.mapIndex pl.pos)).items.get r) :
      Effect cfg (.playSlot chance i) s ((s.modTile (s.mapIndex pl.pos) fun tile =>
        { tile with items := tile.items.add r (-1) }).modPlayer p fun pl => { pl with inv := pl.inv.add r 1 })
  | put {s : Server} {chance : Chance} {i : Nat} {p : Addr} {pl : Player} {r : InventoryType}
      (hpl : s.playerHeap p = some pl) (hr : 0 < pl.inv.get r) :
      Effect cfg (.playSlot chance i) s ((s.modTile (s.mapIndex pl.pos) fun tile =>
        { tile with items := tile.items.add r 1 }).modPlayer p fun pl => { pl with inv := pl.inv.add r (-1) })
  | pay {s : Server} {chance : Chance} {i : Nat} {p : Addr} {pl : Player} (hpl : s.playerHeap p = some pl)
      (hcan : gameCheckCanIncantation s pl true = some .success) :
      Effect cfg (.playSlot chance i) s (payRitual s p pl)
  | front {s : Server} {chance : Chance} {i : Nat} {p c : Addr} {pl : Player} {cl : Client} {delay : Int}
      {level : Addr} {origin : Conn} {b : EventBuffer} (hpl : s.playerHeap p = some pl)
      (hc : s.gameGetClientFromFd pl.id = some c) (hcl : s.clientHeap c = some cl)
      (hb : timeApiScheduleClientEventFront s.now cl.eventBuffer delay (some .realIncantation) (some p)
        (some ⟨level, snprintf 12 pl.level⟩) origin = some b) :
      Effect cfg (.playSlot chance i) s (s.setClientBuffer c b)
  | levelUp {s : Server} {chance : Chance} {i : Nat} {p : Addr} {pl : Player} (hpl : s.playerHeap p = some pl)
      (hlevel : pl.level < levelMax) :
      Effect cfg (.playSlot chance i) s (s.modPlayer p fun r => { r with level := r.level + 1 })
  | complete {s : Server} {chance : Chance} {i : Nat} (p : Addr) (level : Int) :
      Effect cfg (.playSlot chance i) s (s.record (.completed p level))
  | spawn {a : GameAction} {s : Server} (n : Nat) (counts : InventoryType → Nat) :
      Effect cfg a s ((s.modTile (s.mapIndex ⟨n % s.mapSize % s.mapX, n % s.mapSize / s.mapX⟩) fun tile =>
        { tile with items := tile.items.plus (inventoryOf counts) }).record (.spawned (inventoryOf counts)))

/-- The level of the player at an address. -/
def Server.levelOf (s : Server) (p : Addr) : Option Int := (s.playerHeap p).map Player.level

/-- The time of death and the inventory of the player at an address. -/
def Server.vitalsOf (s : Server) (p : Addr) : Option (Nat × Inventory) :=
  (s.playerHeap p).map fun pl => (pl.dieTime, pl.inv)

/-- Only the map, the players and the messages differ, no player has another level, and none but `p` has another
inventory or time of death. -/
structure SameControl (p : Addr) (s s' : Server) : Prop where
  rest : s' = { s with map := s'.map, playerHeap := s'.playerHeap, outbox := s'.outbox }
  level : s'.levelOf = s.levelOf
  vitals : ∀ q, q ≠ p → s'.vitalsOf q = s.vitalsOf q

/-- A sequence of elementary writes of one step. -/
abbrev Effects (cfg : Config) (a : GameAction) : Server → Server → Prop := ReflTransGen (Effect cfg a)

variable {cfg : Config} {a : GameAction} {s s' : Server}

/-! ### What callbacks leave alone -/

theorem SameControl.refl (p : Addr) (s : Server) : SameControl p s s := ⟨rfl, rfl, fun _ _ => rfl⟩

theorem SameControl.trans {p : Addr} {s₁ s₂ s₃ : Server} (h : SameControl p s₁ s₂) (h' : SameControl p s₂ s₃) :
    SameControl p s₁ s₃ := by
  refine ⟨?_, h'.level.trans h.level, fun q hq => (h'.vitals q hq).trans (h.vitals q hq)⟩
  calc s₃ = _ := h'.rest
    _ = _ := by rw [h.rest]

theorem SameButPlaces.levelOf (h : SameButPlaces s s') : s'.levelOf = s.levelOf := by
  funext q
  have hq := congrArg (Option.map Player.level) (h.core q)
  rw [Option.map_map, Option.map_map] at hq
  exact hq

theorem SameButPlaces.vitalsOf (h : SameButPlaces s s') : s'.vitalsOf = s.vitalsOf := by
  funext q
  have hq := congrArg (Option.map fun r : Player => (r.dieTime, r.inv)) (h.core q)
  rw [Option.map_map, Option.map_map] at hq
  exact hq

theorem SameButPlaces.control (h : SameButPlaces s s') (p : Addr) : SameControl p s s' := by
  have hr := h.rest
  refine ⟨?_, h.levelOf, fun q _ => by rw [h.vitalsOf]⟩
  calc s' = _ := hr
    _ = _ := by rw [hr]

theorem SameControl.send {p : Addr} (s : Server) (fd : Fd) (j : Json) : SameControl p s (s.send fd j) :=
  ⟨rfl, rfl, fun _ _ => rfl⟩

theorem modPlayer_levelOf (p : Addr) {f : Player → Player} (hf : ∀ r, (f r).level = r.level) :
    (s.modPlayer p f).levelOf = s.levelOf := by
  funext q
  simp only [Server.levelOf, modPlayer_heap]
  split
  · cases s.playerHeap q <;> simp [hf]
  · rfl

theorem SameControl.modPlayer (s : Server) (p : Addr) {f : Player → Player} (hf : ∀ r, (f r).level = r.level) :
    SameControl p s (s.modPlayer p f) :=
  ⟨rfl, modPlayer_levelOf p hf, fun q hq => by rw [Server.vitalsOf, modPlayer_heap, if_neg hq, Server.vitalsOf]⟩

/-- A write that leaves level, time of death and inventory alone. -/
private theorem SameControl.modPlayer_of {p : Addr} (s : Server) (q : Addr) {f : Player → Player}
    (hf : ∀ r, (f r).level = r.level ∧ (f r).dieTime = r.dieTime ∧ (f r).inv = r.inv) :
    SameControl p s (s.modPlayer q f) := by
  refine ⟨rfl, modPlayer_levelOf q fun r => (hf r).1, fun q' _ => ?_⟩
  simp only [Server.vitalsOf, modPlayer_heap]
  split
  · rw [Option.map_map]
    congr 1
    funext r
    exact Prod.ext (hf r).2.1 (hf r).2.2
  · rfl

theorem SameControl.modTile {p : Addr} (s : Server) (t : Nat) (f : Tile → Tile) : SameControl p s (s.modTile t f) :=
  ⟨rfl, rfl, fun _ _ => rfl⟩

private theorem expulseTurn_control {p : Addr} {pl : Player} {pos : Position} {it : Addr}
    (h : expulseTurn pl pos s it = some s') : SameControl p s s' := by
  simp only [expulseTurn, Option.map_eq_some_iff] at h
  obtain ⟨q, -, rfl⟩ := h
  split
  · exact .refl p s
  · exact ((movePlayer_same s it pos).control p).trans (.send _ _ _)

private theorem broadcastTurn_control {p : Addr} {pl : Player} {arg : Option Arg} {slot : Option Addr}
    (h : broadcastTurn cfg pl arg s slot = some s') : SameControl p s s' := by
  unfold broadcastTurn at h
  split at h
  · cases h; exact .refl p s
  · simp only [Option.bind_eq_some_iff, Option.map_eq_some_iff] at h
    obtain ⟨cl, -, q, -, rfl⟩ := h
    exact .send _ _ _

private theorem commandTransfer_control {cmd : String} {add : Int} {p : Addr} {pl : Player} {arg : Option Arg} :
    SameControl p s (commandTransfer cmd add s p pl arg) := by
  unfold commandTransfer
  split
  · exact .send _ _ _
  split
  · exact .send _ _ _
  split
  · exact .send _ _ _
  · rename_i s₁ h
    refine .trans ?_ (.send _ _ _)
    simp only [helperItemsToTiles] at h
    split_ifs at h <;> cases h
    · exact .trans (.modTile _ _ _) (.modPlayer _ _ fun _ => rfl)
    · exact .trans (.modTile _ _ _) (.modPlayer _ _ fun _ => rfl)
    · exact .refl p s

/-- Every command but `incantation` writes to the map and the players only, and sends messages; of the players it
changes the places at most, unless it moves objects of `p`. -/
theorem runCommand_control_of {fuel : Nat} {p p₀ : Addr} {pl : Player} {ev : Event} {c : CommandType}
    (hc : c ≠ .incantation) (hp : c = .prend ∨ c = .pose → p₀ = p) (h : runCommand cfg fuel s p pl ev c = some s') :
    SameControl p₀ s s' := by
  cases c with
  | incantation => exact absurd rfl hc
  | avance => cases h; exact ((movePlayer_same s p _).control p₀).trans (.send _ _ _)
  | droite =>
    cases h
    exact .trans (.modPlayer_of s p (f := fun r => { r with dir := turnRight pl.dir }) fun _ => ⟨rfl, rfl, rfl⟩)
      (.send _ _ _)
  | gauche =>
    cases h
    exact .trans (.modPlayer_of s p (f := fun r => { r with dir := turnLeft pl.dir }) fun _ => ⟨rfl, rfl, rfl⟩)
      (.send _ _ _)
  | voir =>
    simp only [runCommand, commandVoir, Option.map_eq_some_iff] at h
    obtain ⟨vision, -, rfl⟩ := h
    exact .send _ _ _
  | inventaire => cases h; exact .send _ _ _
  | prend => cases h; rw [hp (Or.inl rfl)]; exact commandTransfer_control
  | pose => cases h; rw [hp (Or.inr rfl)]; exact commandTransfer_control
  | expulse =>
    simp only [runCommand, commandExpulse] at h
    split at h
    · cases h; exact .send _ _ _
    · simp only [Option.map_eq_some_iff] at h
      obtain ⟨s₁, h₁, rfl⟩ := h
      refine .trans ?_ (.send _ _ _)
      exact forEach_invariant (fun s₁ it s₂ h' hI => hI.trans (expulseTurn_control h')) h₁ (.refl p₀ s)
  | broadcast =>
    simp only [runCommand, commandBroadcast, Option.map_eq_some_iff] at h
    obtain ⟨s₁, h₁, rfl⟩ := h
    refine .trans ?_ (.send _ _ _)
    exact Run.foldlM_invariant (fun s₁ slot _ s₂ h' hI => hI.trans (broadcastTurn_control h')) h₁ (.refl p₀ s)
  | fork => cases h; exact .send _ _ _
  | connectNbr =>
    simp only [runCommand, commandConnectNbr, Option.map_eq_some_iff] at h
    obtain ⟨n, -, rfl⟩ := h
    exact .send _ _ _

/-- Of the other players every command but `incantation` changes the places at most. -/
theorem runCommand_control {fuel : Nat} {p : Addr} {pl : Player} {ev : Event} {c : CommandType}
    (hc : c ≠ .incantation) (h : runCommand cfg fuel s p pl ev c = some s') : SameControl p s s' :=
  runCommand_control_of hc (fun _ => rfl) h

theorem levelUpLoop_control {level : Int} {it : Option Addr} (h : levelUpLoop s level it = some s') :
    s' = { s with playerHeap := s'.playerHeap, outbox := s'.outbox } := by
  refine forEach_invariant (I := fun s₁ => s₁ = { s with playerHeap := s₁.playerHeap, outbox := s₁.outbox })
    (fun s₁ q s₂ h' hI => ?_) h rfl
  simp only [levelUpTurn, Option.map_eq_some_iff] at h'
  obtain ⟨r, -, rfl⟩ := h'
  split
  · calc (s₁.modPlayer q _).createResponseToCommand _ _ _ _ = { s₁ with
          playerHeap := Function.update s₁.playerHeap q _, outbox := s₁.outbox ++ _ } := rfl
      _ = _ := by rw [hI]; rfl
  · exact hI

/-- The completion of an incantation: refused, or it levels up the players of the tile and is booked. -/
theorem commandRealIncantation_cases {p : Addr} {pl : Player} {arg : Option Arg}
    (h : commandRealIncantation s p pl arg = some s') : ∃ a, arg = some a ∧
      (s' = s.createResponseToCommand pl.id "incantation" none (some "ko") ∨
      (pl.level = atoi a.text ∧ gameCheckCanIncantation s pl false = some .success ∧
        ∃ s₁, levelUpLoop s pl.level (s.map (s.mapIndex pl.pos)).players = some s₁ ∧
          s' = (s₁.record (.completed p pl.level)).createResponseToCommand pl.id "incantation" none
            (some "ok"))) := by
  simp only [commandRealIncantation, Option.bind_eq_some_iff] at h
  obtain ⟨copy, harg, h⟩ := h
  refine ⟨copy, harg, ?_⟩
  split at h
  · exact Or.inl (Option.some.inj h).symm
  · rename_i hlevel
    have hlevel' : pl.level = atoi copy.text := by omega
    simp only [Option.bind_eq_some_iff] at h
    obtain ⟨ret, hret, h⟩ := h
    cases ret with
    | error => exact Or.inl (Option.some.inj h).symm
    | success =>
      simp only [Option.map_eq_some_iff, ← hlevel'] at h
      obtain ⟨s₁, h₁, rfl⟩ := h
      exact Or.inr ⟨hlevel', hret, s₁, h₁, rfl⟩

/-- The completion of an incantation writes to the players and the ledger, and sends messages. -/
theorem commandRealIncantation_control {p : Addr} {pl : Player} {arg : Option Arg}
    (h : commandRealIncantation s p pl arg = some s') :
    s' = { s with map := s'.map, playerHeap := s'.playerHeap, outbox := s'.outbox, ledger := s'.ledger } := by
  obtain ⟨a, -, rfl | ⟨-, -, s₁, h₁, rfl⟩⟩ := commandRealIncantation_cases h
  · rfl
  · simp only [Server.createResponseToCommand, Server.send, Server.record]
    rw [levelUpLoop_control h₁]

/-! ### Lookups and buffers -/

theorem gameGetClientFromFd_some {fd : Fd} {c : Addr} (h : s.gameGetClientFromFd fd = some c) :
    some c ∈ s.clients ∧ ∃ cl, s.clientHeap c = some cl ∧ cl.socketFd = fd := by
  obtain ⟨slot, hslot, h⟩ := List.exists_of_findSome?_eq_some h
  simp only [Option.bind_eq_some_iff] at h
  obtain ⟨d, rfl, cl, hcl, h⟩ := h
  split at h
  · rename_i hfd
    cases h
    exact ⟨hslot, cl, hcl, hfd⟩
  · cases h

private theorem modClient_eq {c : Addr} {cl : Client} {f : Client → Client} (hcl : s.clientHeap c = some cl) :
    s.modClient c f = { s with clientHeap := Function.update s.clientHeap c (some (f cl)) } := by
  simp [Server.modClient, hcl]

theorem setClientBuffer_eq {c : Addr} {cl : Client} {b : EventBuffer} (hcl : s.clientHeap c = some cl) :
    s.setClientBuffer c b =
      { s with clientHeap := Function.update s.clientHeap c (some { cl with eventBuffer := b }) } :=
  modClient_eq hcl

theorem setClientBuffer_heap {c : Addr} {cl : Client} (b : EventBuffer) (hcl : s.clientHeap c = some cl) (d : Addr) :
    (s.setClientBuffer c b).clientHeap d = if d = c then some { cl with eventBuffer := b } else s.clientHeap d := by
  rw [setClientBuffer_eq hcl]
  exact Function.update_apply ..

theorem clientBuffer_eq {c : Addr} {cl : Client} (hcl : s.clientHeap c = some cl) :
    s.clientBuffer c = cl.eventBuffer := by
  simp [Server.clientBuffer, hcl]

/-- Writing back the buffer that is there changes nothing. -/
theorem setClientBuffer_self {c : Addr} {cl : Client} (hcl : s.clientHeap c = some cl) :
    s.setClientBuffer c cl.eventBuffer = s := by
  rw [setClientBuffer_eq hcl, show some { cl with eventBuffer := cl.eventBuffer } = s.clientHeap c from hcl.symm,
    Function.update_eq_self]

/-- Scheduling with the result ignored: the new buffer, or the old one when there is no room. -/
theorem modClient_getD {c : Addr} {cl : Client} (hcl : s.clientHeap c = some cl) (g : Client → Option EventBuffer) :
    (g cl = none ∧ s.modClient c (fun cl => { cl with eventBuffer := (g cl).getD cl.eventBuffer }) = s) ∨
    ∃ b, g cl = some b ∧
      s.modClient c (fun cl => { cl with eventBuffer := (g cl).getD cl.eventBuffer }) = s.setClientBuffer c b := by
  rw [modClient_eq hcl]
  cases hg : g cl with
  | none => exact Or.inl ⟨rfl, by simpa [setClientBuffer_eq hcl] using setClientBuffer_self hcl⟩
  | some b => exact Or.inr ⟨b, rfl, by rw [setClientBuffer_eq hcl]; rfl⟩

/-- What the second half of `m_command_incantation` does to the buffer it finds. -/
theorem queueCompletion_cases (cfg : Config) (s : Server) (p : Addr) (pl : Player) (origin : Conn) :
    (s.gameGetClientFromFd pl.id = none ∧ queueCompletion cfg s p pl origin = s) ∨
    ∃ c cl, s.gameGetClientFromFd pl.id = some c ∧ s.clientHeap c = some cl ∧ ∃ s₂,
      queueCompletion cfg s p pl origin =
        s₂.createResponseToCommand pl.id "incantation" none (some "in_progress") ∧
      (s₂ = (s.strdup (snprintf 12 pl.level)).2 ∨ ∃ b,
        timeApiScheduleClientEventFront s.now cl.eventBuffer (cfg.delay .incantation) (some .realIncantation)
          (some p) (some ⟨s.nextAddr, snprintf 12 pl.level⟩) origin = some b ∧
        s₂ = (s.strdup (snprintf 12 pl.level)).2.setClientBuffer c b) := by
  unfold queueCompletion
  split
  · rename_i h; exact Or.inl ⟨h, rfl⟩
  · rename_i c h
    obtain ⟨-, cl, hcl, -⟩ := gameGetClientFromFd_some h
    refine Or.inr ⟨c, cl, h, hcl, _, rfl, ?_⟩
    have hcl' : (s.strdup (snprintf 12 pl.level)).2.clientHeap c = some cl := hcl
    rcases modClient_getD hcl' (fun cl => timeApiScheduleClientEventFront s.now cl.eventBuffer
      (cfg.delay .incantation) (some .realIncantation) (some p) (some ⟨s.nextAddr, snprintf 12 pl.level⟩) origin)
      with ⟨-, h'⟩ | ⟨b, hb, h'⟩
    · exact Or.inl h'
    · exact Or.inr ⟨b, hb, h'⟩

theorem gameCheckCanIncantation_success {pl : Player} {checkItems : Bool}
    (h : gameCheckCanIncantation s pl checkItems = some .success) : pl.level < levelMax := by
  unfold gameCheckCanIncantation at h
  split at h
  · cases h
  · omega

/-- Queueing a completion writes to the buffer of a client and sends a message. -/
theorem queueCompletion_rest (cfg : Config) (s : Server) (p : Addr) (pl : Player) (origin : Conn) :
    queueCompletion cfg s p pl origin = { s with
      nextAddr := (queueCompletion cfg s p pl origin).nextAddr
      clientHeap := (queueCompletion cfg s p pl origin).clientHeap
      outbox := (queueCompletion cfg s p pl origin).outbox } := by
  rcases queueCompletion_cases cfg s p pl origin with ⟨-, h⟩ | ⟨c, cl, -, -, s₂, h, rfl | ⟨b, -, rfl⟩⟩
  · rw [h]
  · rw [h]; rfl
  · rw [h]; rfl

/-- An incantation is refused and changes nothing, or its price is paid and its completion is queued. -/
theorem commandIncantation_cases {p : Addr} {pl : Player} {origin : Conn}
    (h : commandIncantation cfg s p pl origin = some s') :
    s' = s.createResponseToCommand pl.id "incantation" none (some "ko") ∨
      (gameCheckCanIncantation s pl true = some .success ∧
        s' = queueCompletion cfg (payRitual s p pl) p pl origin) := by
  simp only [commandIncantation] at h
  split at h
  · exact Or.inl (Option.some.inj h).symm
  · simp only [Option.map_eq_some_iff] at h
    obtain ⟨ret, hret, rfl⟩ := h
    cases ret with
    | error => exact Or.inl rfl
    | success => exact Or.inr ⟨hret, rfl⟩

/-- A lap over some tiles writes to the map and the ledger only. -/
theorem spawnTurns_rest (counts : Nat → InventoryType → Nat) (l : List Nat) (s : Server) :
    l.foldl (spawnTurn counts) s =
      { s with map := (l.foldl (spawnTurn counts) s).map, ledger := (l.foldl (spawnTurn counts) s).ledger } := by
  induction l generalizing s with
  | nil => rfl
  | cons i l ih =>
    have hturn : spawnTurn counts s i =
        { s with map := (spawnTurn counts s i).map, ledger := (spawnTurn counts s i).ledger } := by
      unfold spawnTurn
      dsimp only
      split <;> rfl
    rw [List.foldl_cons, ih, hturn]

/-- Resources grow on the map only, and the next spawning is scheduled. -/
theorem gameSpawnResources_rest (cfg : Config) (counts : Nat → InventoryType → Nat) (s : Server) (ev : Event) :
    gameSpawnResources cfg counts s ev = { s with
      map := ((List.range s.spawnBatch).foldl (spawnTurn counts) s).map
      ledger := ((List.range s.spawnBatch).foldl (spawnTurn counts) s).ledger
      nextIdx := (s.nextIdx + s.spawnBatch) % s.mapSize
      eventBuffer := (timeApiScheduleClientEvent s.now s.eventBuffer cfg.spawnPeriod (some .spawnResources)
        ev.data ev.arg ev.origin).getD s.eventBuffer } := by
  unfold gameSpawnResources
  dsimp only
  rw [spawnTurns_rest]
  rfl

/-- Clients, players and what was sent stay as they were. -/
theorem gameSpawnResources_same (cfg : Config) (counts : Nat → InventoryType → Nat) (s : Server) (ev : Event) :
    (gameSpawnResources cfg counts s ev).clientHeap = s.clientHeap ∧
      (gameSpawnResources cfg counts s ev).clients = s.clients ∧
      (gameSpawnResources cfg counts s ev).playerHeap = s.playerHeap ∧
      (gameSpawnResources cfg counts s ev).outbox = s.outbox := by
  rw [gameSpawnResources_rest]
  exact ⟨rfl, rfl, rfl, rfl⟩

/-- A callback leaves all clients alone, or puts the completion of an incantation at the front of one buffer. -/
private theorem runCallback_clientHeap {chance : Chance} {ev : Event} (h : runCallback cfg chance ev s = some s') :
    s'.clientHeap = s.clientHeap ∨ ∃ c cl b delay cb data arg origin, s.clientHeap c = some cl ∧
      timeApiScheduleClientEventFront s.now cl.eventBuffer delay cb data arg origin = some b ∧
      s'.clientHeap = Function.update s.clientHeap c (some { cl with eventBuffer := b }) := by
  unfold runCallback at h
  split at h
  · cases h; exact Or.inl rfl
  · cases h
    exact Or.inl (gameSpawnResources_same cfg chance.counts s ev).1
  · rename_i c _
    simp only [Option.bind_eq_some_iff] at h
    obtain ⟨p, -, pl, -, h⟩ := h
    by_cases hc : c = .incantation
    · subst hc
      obtain rfl | ⟨-, rfl⟩ := commandIncantation_cases h
      · exact Or.inl rfl
      · rcases queueCompletion_cases cfg (payRitual s p pl) p pl ev.origin with
          ⟨-, h'⟩ | ⟨c, cl, -, hcl, s₂, h', h₂⟩
        · exact Or.inl (by rw [h']; rfl)
        · rcases h₂ with rfl | ⟨b, hb, rfl⟩
          · exact Or.inl (by rw [h']; rfl)
          · refine Or.inr ⟨c, cl, b, _, _, _, _, _, hcl, hb, ?_⟩
            rw [h', setClientBuffer_eq (s := ((payRitual s p pl).strdup _).2) hcl]
            rfl
    · have hctl := runCommand_control hc h
      exact Or.inl (by rw [hctl.rest])
  · simp only [Option.bind_eq_some_iff] at h
    obtain ⟨p, -, pl, -, h⟩ := h
    exact Or.inl (by rw [commandRealIncantation_control h])

/-! ### Steps as sequences of writes -/

theorem Effect.send (fd : Fd) (j : Json) : Effect cfg a s (s.send fd j) :=
  .quiet (s := s) s.now s.nextIdx s.nextAddr s.maxFd s.released (s.outbox ++ [(fd, j)])
    (Nat.le_refl _)

theorem Effect.release (addr : Addr) : Effect cfg a s (s.release addr) :=
  .quiet (s := s) s.now s.nextIdx s.nextAddr s.maxFd (s.released ++ [addr]) s.outbox
    (Nat.le_refl _)

theorem Effect.strdup (text : String) : Effect cfg a s (s.strdup text).2 :=
  .quiet (s := s) s.now s.nextIdx (s.nextAddr + 1) s.maxFd s.released s.outbox (Nat.le_succ _)

variable {chance : Chance} {i : Nat}

private theorem commandTransfer_effects {cmd : String} {add : Int} (hadd : add = -1 ∨ add = 1) {p : Addr} {pl : Player}
    {arg : Option Arg} (hpl : s.playerHeap p = some pl) :
    Effects cfg (.playSlot chance i) s (commandTransfer cmd add s p pl arg) := by
  unfold commandTransfer
  split
  · exact .single (.send _ _)
  split
  · exact .single (.send _ _)
  split
  · exact .single (.send _ _)
  · rename_i type _ s₁ h
    refine .tail (b := s₁) ?_ (.send _ _)
    simp only [helperItemsToTiles] at h
    rcases hadd with rfl | rfl
    · rw [if_pos rfl] at h
      split at h
      · cases h
      · rename_i hget
        cases h
        exact .single (.take hpl (by omega))
    · rw [if_neg (by decide), if_pos rfl] at h
      split at h
      · cases h
      · rename_i hget
        cases h
        exact .single (.put hpl (by omega))

/-- The loop of `m_command_expulse`, turn by turn; the player who expels does not move. -/
private theorem expulse_effects {p it : Addr} {pl : Player} {fuel : Nat} (hpl : s.playerHeap p = some pl)
    (h : forEach (expulseTurn pl (stepAhead s pl.pos pl.dir)) Server.nextOnTile fuel s (some it) = some s') :
    Effects cfg (.playSlot chance i) s s' := by
  have hinv : Effects cfg (.playSlot chance i) s s' ∧ s'.mapX = s.mapX ∧ s'.mapY = s.mapY ∧
      ∃ ql, s'.playerHeap p = some ql ∧ ql.pos = pl.pos ∧ ql.core = pl.core := by
    refine forEach_invariant (I := fun s₁ => Effects cfg (.playSlot chance i) s s₁ ∧ s₁.mapX = s.mapX ∧
      s₁.mapY = s.mapY ∧ ∃ ql, s₁.playerHeap p = some ql ∧ ql.pos = pl.pos ∧ ql.core = pl.core) ?_ h
      ⟨.refl, rfl, rfl, pl, hpl, rfl, rfl⟩
    intro s₁ it s₂ hturn ⟨heff, hX, hY, ql, hql, hpos, hcore⟩
    simp only [expulseTurn, Option.map_eq_some_iff] at hturn
    obtain ⟨q, hq, rfl⟩ := hturn
    split
    · exact ⟨heff, hX, hY, ql, hql, hpos, hcore⟩
    · rename_i hid
      have hne : p ≠ it := by
        rintro rfl
        obtain rfl := Option.some.inj (hq.symm.trans hql)
        exact hid (Player.core_eq hcore).1
      have hsame := movePlayer_same s₁ it (stepAhead s pl.pos pl.dir)
      obtain ⟨ql', hql', hcore'⟩ := hsame.player' hql
      have hahead : stepAhead s pl.pos pl.dir = stepAhead s₁ ql.pos ql.dir := by
        rw [hpos, (Player.core_eq hcore).2.2.2.1]
        simp only [stepAhead, hX, hY]
      refine ⟨(heff.tail ?_).tail (.send _ _), ?_, ?_, ql', hql', ?_, hcore'.trans hcore⟩
      · rw [hahead]; exact .move hq hql
      · exact (congrArg Server.mapX hsame.rest).trans hX
      · exact (congrArg Server.mapY hsame.rest).trans hY
      · have := movePlayer_posOf_ne s₁ (stepAhead s pl.pos pl.dir) hne
        simp only [Server.posOf, hql', hql, Option.map_some, Option.some.injEq] at this
        exact this.trans hpos
  exact hinv.1

private theorem broadcastTurn_effects {pl : Player} {arg : Option Arg} {slot : Option Addr}
    (h : broadcastTurn cfg pl arg s slot = some s') : Effects cfg (.playSlot chance i) s s' := by
  unfold broadcastTurn at h
  split at h
  · cases h; exact .refl
  · simp only [Option.bind_eq_some_iff, Option.map_eq_some_iff] at h
    obtain ⟨cl, -, q, -, rfl⟩ := h
    exact .single (.send _ _)

private theorem queueCompletion_effects {p : Addr} {pl : Player} (hpl : s.playerHeap p = some pl) (origin : Conn) :
    Effects cfg (.playSlot chance i) s (queueCompletion cfg s p pl origin) := by
  rcases queueCompletion_cases cfg s p pl origin with ⟨-, h⟩ | ⟨c, cl, hc, hcl, s₂, h, h₂⟩
  · rw [h]
  · rw [h]
    refine .tail ?_ (.send _ _)
    rcases h₂ with rfl | ⟨b, hb, rfl⟩
    · exact .single (.strdup _)
    · exact (ReflTransGen.single (.strdup _)).tail
        (.front (s := (s.strdup (snprintf 12 pl.level)).2) hpl hc hcl hb)

private theorem commandIncantation_effects {p : Addr} {pl : Player} {origin : Conn} (hpl : s.playerHeap p = some pl)
    (h : commandIncantation cfg s p pl origin = some s') : Effects cfg (.playSlot chance i) s s' := by
  obtain rfl | ⟨hret, rfl⟩ := commandIncantation_cases h
  · exact .single (.send _ _)
  · exact .head (.pay hpl hret) (queueCompletion_effects (s := payRitual s p pl) hpl origin)

private theorem levelUpLoop_effects {level : Int} {it : Option Addr} (hlevel : level < levelMax)
    (h : levelUpLoop s level it = some s') : Effects cfg (.playSlot chance i) s s' := by
  refine forEach_invariant (I := fun s₁ => Effects cfg (.playSlot chance i) s s₁) (fun s₁ q s₂ h' hI => ?_) h .refl
  simp only [levelUpTurn, Option.map_eq_some_iff] at h'
  obtain ⟨r, hr, rfl⟩ := h'
  split
  · rename_i hl
    exact (hI.tail (.levelUp hr (by omega))).tail (.send _ _)
  · exact hI

theorem commandRealIncantation_effects {p : Addr} {pl : Player} {arg : Option Arg}
    (h : commandRealIncantation s p pl arg = some s') : Effects cfg (.playSlot chance i) s s' := by
  obtain ⟨copy, -, rfl | ⟨-, hret, s₁, h₁, rfl⟩⟩ := commandRealIncantation_cases h
  · exact .single (.send _ _)
  · have hlt := gameCheckCanIncantation_success hret
    exact ((levelUpLoop_effects hlt h₁).tail (.complete _ _)).tail (.send _ _)

theorem runCommand_effects {fuel : Nat} {p : Addr} {pl : Player} {ev : Event} {c : CommandType}
    (hpl : s.playerHeap p = some pl) (h : runCommand cfg fuel s p pl ev c = some s') :
    Effects cfg (.playSlot chance i) s s' := by
  cases c with
  | avance => cases h; exact (ReflTransGen.single (.move hpl hpl)).tail (.send _ _)
  | droite => cases h; exact (ReflTransGen.single (.turn _ hpl)).tail (.send _ _)
  | gauche => cases h; exact (ReflTransGen.single (.turn _ hpl)).tail (.send _ _)
  | voir =>
    simp only [runCommand, commandVoir, Option.map_eq_some_iff] at h
    obtain ⟨vision, -, rfl⟩ := h
    exact .single (.send _ _)
  | inventaire => cases h; exact .single (.send _ _)
  | prend => cases h; exact commandTransfer_effects (Or.inl rfl) hpl
  | pose => cases h; exact commandTransfer_effects (Or.inr rfl) hpl
  | expulse =>
    simp only [runCommand, commandExpulse] at h
    split at h
    · cases h; exact .single (.send _ _)
    · simp only [Option.map_eq_some_iff] at h
      obtain ⟨s₁, h₁, rfl⟩ := h
      exact (expulse_effects hpl h₁).tail (.send _ _)
  | broadcast =>
    simp only [runCommand, commandBroadcast, Option.map_eq_some_iff] at h
    obtain ⟨s₁, h₁, rfl⟩ := h
    refine .tail ?_ (.send _ _)
    exact Run.foldlM_invariant (I := fun s₁ => Effects cfg (.playSlot chance i) s s₁)
      (fun s₁ slot _ s₂ h' hI => hI.trans (broadcastTurn_effects h')) h₁ .refl
  | incantation => exact commandIncantation_effects hpl h
  | fork => cases h; exact .single (.send _ _)
  | connectNbr =>
    simp only [runCommand, commandConnectNbr, Option.map_eq_some_iff] at h
    obtain ⟨n, -, rfl⟩ := h
    exact .single (.send _ _)

theorem gameSpawnResources_effects (counts : Nat → InventoryType → Nat) (ev : Event) :
    Effects cfg a s (gameSpawnResources cfg counts s ev) := by
  have hloop : ∀ (l : List Nat) (s : Server), Effects cfg a s (l.foldl (spawnTurn counts) s) := by
    intro l
    induction l with
    | nil => exact fun _ => .refl
    | cons i l ih =>
      intro s
      refine .trans ?_ (ih _)
      unfold spawnTurn
      dsimp only
      split
      · exact .refl
      · exact .single (.spawn (s.nextIdx + i) (counts i))
  refine (hloop (List.range s.spawnBatch) s).trans ?_
  unfold gameSpawnResources
  dsimp only
  generalize (List.range s.spawnBatch).foldl (spawnTurn counts) s = s₁
  refine .head (.quiet s₁.now ((s₁.nextIdx + s.spawnBatch) % s₁.mapSize) s₁.nextAddr s₁.maxFd
    s₁.released s₁.outbox (Nat.le_refl _)) (.single (.serverBuffer
      (s := { s₁ with nextIdx := (s₁.nextIdx + s.spawnBatch) % s₁.mapSize }) _ fun i cb hcb => ?_))
  cases hsch : timeApiScheduleClientEvent s₁.now s₁.eventBuffer cfg.spawnPeriod (some .spawnResources) ev.data ev.arg
      ev.origin with
  | none => rw [hsch] at hcb; exact Or.inr ⟨i, hcb⟩
  | some b =>
    rw [hsch, Option.getD_some] at hcb
    simp only [timeApiScheduleClientEvent] at hsch
    split at hsch
    · cases hsch
    · cases hsch
      simp only [Function.update_apply] at hcb
      split at hcb
      · exact Or.inl (Option.some.inj hcb).symm
      · exact Or.inr ⟨i, hcb⟩

theorem runCallback_effects {ev : Event} (h : runCallback cfg chance ev s = some s') :
    Effects cfg (.playSlot chance i) s s' := by
  unfold runCallback at h
  split at h
  · cases h; exact .refl
  · cases h; exact gameSpawnResources_effects _ _
  · simp only [Option.bind_eq_some_iff] at h
    obtain ⟨p, -, pl, hpl, h⟩ := h
    exact runCommand_effects hpl h
  · simp only [Option.bind_eq_some_iff] at h
    obtain ⟨p, -, pl, -, h⟩ := h
    exact commandRealIncantation_effects h

/-- What the callback of an event leaves in the buffer that the event was taken from: the rest of the queue, or
the completion of an incantation in front of it. -/
private theorem runCallback_clientBuffer {ev : Event} {c : Addr} {cl : Client} (hcl : s.clientHeap c = some cl)
    (h : runCallback cfg chance ev s = some s') :
    ∃ cl', s'.clientHeap c = some cl' ∧ (cl' = cl ∨ ∃ b delay cb data arg origin,
      timeApiScheduleClientEventFront s.now cl.eventBuffer delay cb data arg origin = some b ∧
      cl' = { cl with eventBuffer := b }) := by
  rcases runCallback_clientHeap h with hh | ⟨d, dl, b, delay, cb, data, arg, origin, hd, hb, hh⟩
  · exact ⟨cl, by rw [hh, hcl], Or.inl rfl⟩
  · by_cases hcd : c = d
    · subst hcd
      obtain rfl := Option.some.inj (hcl.symm.trans hd)
      exact ⟨_, by rw [hh, Function.update_self], Or.inr ⟨b, delay, cb, data, arg, origin, hb, rfl⟩⟩
    · exact ⟨cl, by rw [hh, Function.update_of_ne hcd, hcl], Or.inl rfl⟩

/-- An event that calls nothing back does what no callback does. -/
theorem runCallback_of_called {ev : Event}
    (h : (if ev.callback.isSome then runCallback cfg chance ev s else some s) = some s') :
    runCallback cfg chance ev s = some s' := by
  split at h
  · exact h
  · rename_i hnone
    rw [Bool.not_eq_true, Option.isSome_eq_false_iff, Option.isNone_iff_eq_none] at hnone
    rw [runCallback, hnone]
    exact h

/-- `time_api_process_client_events` on the buffer of a client: nothing, or the first event is taken out, its
callback runs, and the argument left in the slot may be released. -/
theorem processClient_cases {c : Addr} {cl : Client} (hwf : cl.eventBuffer.WF)
    (hcl : s.clientHeap c = some cl) (h : processClient cfg chance c s = some s') :
    s' = s ∨ ∃ ev, cl.eventBuffer.queued = ev :: cl.eventBuffer.pop.queued ∧ 0 < cl.eventBuffer.count ∧
      ev.execTime ≤ s.now ∧ ∃ s₂, runCallback cfg chance ev (s.setClientBuffer c cl.eventBuffer.pop) = some s₂ ∧
      (s' = s₂ ∨ ∃ addr cl' i, s₂.clientHeap c = some cl' ∧ cl'.eventBuffer = cl.eventBuffer.pop ∧
        (cl'.eventBuffer.clearArg i).queued = cl'.eventBuffer.queued ∧
        s' = (s₂.setClientBuffer c (cl'.eventBuffer.clearArg i)).release addr) := by
  rcases process_cases h with ⟨rfl, -⟩ | ⟨hcount, hdue, s₂, hcall, hend⟩
  · exact Or.inl rfl
  rw [clientBuffer_eq hcl] at hcount hdue hcall hend
  have hrun : runCallback cfg chance (cl.eventBuffer.events cl.eventBuffer.head)
      (s.setClientBuffer c cl.eventBuffer.pop) = some s₂ := runCallback_of_called hcall
  refine Or.inr ⟨_, EventBuffer.queued_pop hwf hcount, hcount, hdue, s₂, hrun, ?_⟩
  have hcl₁ : (s.setClientBuffer c cl.eventBuffer.pop).clientHeap c =
      some { cl with eventBuffer := cl.eventBuffer.pop } := by
    rw [setClientBuffer_eq hcl]; simp
  obtain ⟨cl', hcl', hor⟩ := runCallback_clientBuffer hcl₁ hrun
  rcases hend with ⟨rfl, -⟩ | ⟨addr, -, hhead, rfl⟩
  · exact Or.inl rfl
  · rw [clientBuffer_eq hcl'] at hhead ⊢
    refine Or.inr ⟨addr.addr, cl', cl.eventBuffer.head, hcl', ?_⟩
    rcases hor with rfl | ⟨b, delay, cb, data, arg, origin, hb, rfl⟩
    · exact ⟨rfl, EventBuffer.queued_clearArg_pop hwf hcount, rfl⟩
    · -- a completion put in front has moved `head`, so the slot is not cleared
      exfalso
      unfold timeApiScheduleClientEventFront at hb
      split at hb
      · cases hb
      · cases hb
        have h1 := hwf.head
        have h10 : maxEvents = 10 := rfl
        simp only [EventBuffer.pop, h10] at hhead h1
        omega

private theorem processClient_effects {c : Addr} {cl : Client} (hwf : BuffersWF s)
    (hi : s.clients[i]? = some (some c)) (hcl : s.clientHeap c = some cl) (h : processClient cfg chance c s = some s') :
    Effects cfg (.playSlot chance i) s s' := by
  rcases processClient_cases (hwf.client c cl hcl) hcl h with rfl | ⟨ev, -, hcount, -, s₂, hrun, hend⟩
  · exact .refl
  · refine .head (.pop hi hcl hcount) ((runCallback_effects hrun).trans ?_)
    rcases hend with rfl | ⟨addr, cl', j, hcl', -, hq, rfl⟩
    · exact .refl
    · exact (ReflTransGen.single (.clearArg hcl' hq)).tail (.release _)

/-- The buffer of the server calls back nothing but `m_game_spawn_resources`. -/
theorem BuffersWF.server_called (hwf : BuffersWF s) {i : Nat} {s₁ s₂ : Server}
    (h : (if (s.eventBuffer.events i).callback.isSome then runCallback cfg chance (s.eventBuffer.events i) s₁
      else some s₁) = some s₂) :
    s₂ = gameSpawnResources cfg chance.counts s₁ (s.eventBuffer.events i) ∨ s₂ = s₁ := by
  split at h
  · rename_i hsome
    obtain ⟨cb, hcb⟩ := Option.isSome_iff_exists.1 hsome
    obtain rfl := hwf.server _ _ hcb
    simp only [runCallback, hcb, Option.some.injEq] at h
    exact Or.inl h.symm
  · cases h
    exact Or.inr rfl

private theorem processServer_effects (hwf : BuffersWF s) (h : processServer cfg chance s = some s') :
    Effects cfg a s s' := by
  rcases process_cases h with ⟨rfl, -⟩ | ⟨-, -, s₂, hcall, hend⟩
  · exact .refl
  · refine .head (.serverBuffer s.eventBuffer.pop fun i cb hcb => Or.inr ⟨i, hcb⟩) (.trans (b := s₂) ?_ ?_)
    · rcases hwf.server_called hcall with rfl | rfl
      · exact gameSpawnResources_effects _ _
      · exact .refl
    · rcases hend with ⟨rfl, -⟩ | ⟨addr, -, -, rfl⟩
      · exact .refl
      · refine (ReflTransGen.single (.serverBuffer _ fun i cb hcb => Or.inr ?_)).tail (.release _)
        simp only [EventBuffer.clearArg, Function.update_apply] at hcb
        split at hcb
        · exact ⟨_, hcb⟩
        · exact ⟨i, hcb⟩

/-- The client and the player in slot `i`. -/
structure AtSlot (s : Server) (i : Nat) (c : Addr) (cl : Client) (pl : Player) : Prop where
  slot : s.clients[i]? = some (some c)
  client : s.clientHeap c = some cl
  player : s.playerHeap cl.player = some pl

theorem AtSlot.unique {c d : Addr} {cl dl : Client} {pl : Player} (h : AtSlot s i c cl pl)
    (hi : s.clients[i]? = some (some d)) (hdl : s.clientHeap d = some dl) : d = c ∧ dl = cl := by
  obtain rfl : d = c := Option.some.inj (Option.some.inj (hi.symm.trans h.slot))
  exact ⟨rfl, Option.some.inj (hdl.symm.trans h.client)⟩

/-- What the turn of a slot is. -/
inductive SlotTurn (cfg : Config) (chance : Chance) (s : Server) (i : Nat) : Server → Prop
  | empty (hi : ∀ c, s.clients[i]? ≠ some (some c)) : SlotTurn cfg chance s i s
  | eats {c : Addr} {cl : Client} {pl : Player} (hat : AtSlot s i c cl pl) (hdead : playerIsAlive pl s.now = false)
      (hfood : 0 < pl.inv.nourriture) : SlotTurn cfg chance s i (eat cfg s cl.player)
  | dies {c : Addr} {cl : Client} {pl : Player} (hat : AtSlot s i c cl pl) (hdead : playerIsAlive pl s.now = false)
      (hfood : pl.inv.nourriture ≤ 0) : SlotTurn cfg chance s i (gamePlayerDie cfg s c cl pl).2
  | waits {c : Addr} {cl : Client} {pl : Player} (hat : AtSlot s i c cl pl) (halive : playerIsAlive pl s.now = true)
      (hidle : clientHasActions cl.eventBuffer s.now = false) : SlotTurn cfg chance s i s
  | plays {c : Addr} {cl : Client} {pl : Player} {s' : Server} (hat : AtSlot s i c cl pl)
      (halive : playerIsAlive pl s.now = true) (hdue : clientHasActions cl.eventBuffer s.now = true)
      (hrun : processClient cfg chance c s = some s') : SlotTurn cfg chance s i s'

theorem gamePlaySlot_cases (h : gamePlaySlot cfg chance s i = some s') : SlotTurn cfg chance s i s' := by
  unfold gamePlaySlot at h
  split at h
  · rename_i c hi
    simp only [Option.bind_eq_some_iff] at h
    obtain ⟨cl, hcl, pl, hpl, h⟩ := h
    have hat : AtSlot s i c cl pl := ⟨hi, hcl, hpl⟩
    split at h
    · rename_i hdead
      have hdead : playerIsAlive pl s.now = false := by simpa using hdead
      cases h
      by_cases hfood : 0 < pl.inv.nourriture
      · have heat : (gamePlayerDie cfg s c cl pl).2 = eat cfg s cl.player := by rw [gamePlayerDie, if_pos hfood]
        rw [heat]
        exact .eats hat hdead hfood
      · exact .dies hat hdead (by omega)
    · rename_i halive
      have halive : playerIsAlive pl s.now = true := by simpa using halive
      split at h
      · rename_i hdue
        exact .plays hat halive hdue h
      · rename_i hidle
        cases h
        exact .waits hat halive (by simpa using hidle)
  · rename_i hempty
    cases h
    exact .empty hempty

theorem gamePlaySlot_effects (hwf : BuffersWF s)
    (h : gamePlaySlot cfg chance s i = some s') : Effects cfg (.playSlot chance i) s s' := by
  cases gamePlaySlot_cases h with
  | empty => exact .refl
  | eats hat hdead hfood => exact .single (.eat hat.slot hat.client hat.player hfood)
  | dies hat hdead hfood => exact .single (.die hat.slot hat.client hat.player hfood)
  | waits => exact .refl
  | plays hat halive hdue hrun => exact processClient_effects hwf hat.slot hat.client hrun

private theorem gameExecuteCommand_effects {conn : Conn} {fd : Fd} {cmd : String} {arg : Option String} :
    Effects cfg (.execute conn fd cmd arg) s (gameExecuteCommand cfg s conn fd cmd arg).2 := by
  unfold gameExecuteCommand
  split
  · exact .refl
  · rename_i c hc
    split
    · exact .refl
    · rename_i type _
      obtain ⟨-, cl, hcl, -⟩ := gameGetClientFromFd_some hc
      have hsched : ∀ (s₁ : Server) (copy : Option Arg), s₁.gameGetClientFromFd fd = some c →
          s₁.clientHeap c = some cl → Effects cfg (.execute conn fd cmd arg) s₁ (s₁.modClient c fun cl =>
            { cl with
              eventBuffer :=
                (timeApiScheduleClientEvent s₁.now cl.eventBuffer (prototypeDelay cfg type) (some (.command type))
                  (some cl.player) copy conn).getD cl.eventBuffer }) := by
        intro s₁ copy hc₁ hcl₁
        rcases modClient_getD hcl₁ (fun cl => timeApiScheduleClientEvent s₁.now cl.eventBuffer
          (prototypeDelay cfg type) (some (.command type)) (some cl.player) copy conn) with ⟨-, h'⟩ | ⟨b, hb, h'⟩
        · rw [h']
        · rw [h']
          exact .single (.schedule hc₁ hcl₁ hb)
      cases arg with
      | none => exact hsched s none hc hcl
      | some text => exact .head (.strdup text) (hsched (s.strdup text).2 _ hc hcl)

/-- Every step of the game is a sequence of elementary writes. -/
theorem gameStep_effects (hwf : BuffersWF s) (h : gameStep cfg s a = some s') : Effects cfg a s s' := by
  cases a with
  | tick t =>
    cases h
    exact .single (.quiet (s := s) t s.nextIdx s.nextAddr s.maxFd s.released s.outbox (Nat.le_refl _))
  | register conn fd teamName draw =>
    cases h
    unfold gameRegisterPlayer
    split
    · exact .refl
    · rename_i teamId hname
      split
      · exact .refl
      · rename_i t ht
        split
        · exact .refl
        · rename_i hfull
          exact .single (.enter hname ht (by simpa [teamIsFull] using hfull))
  | execute conn fd cmd arg => cases h; exact gameExecuteCommand_effects
  | kill fd =>
    cases h
    unfold gameKillPlayer
    split
    · exact .refl
    · rename_i c hc
      split
      · exact .refl
      · rename_i cl hcl
        split
        · exact .refl
        · rename_i pl hpl
          exact .single (.kill hc hcl hpl)
  | playSlot chance i => exact gamePlaySlot_effects hwf h
  | playServer chance => exact processServer_effects hwf h
  | accepted fd =>
    cases h
    exact .single (.quiet (s := s) s.now s.nextIdx s.nextAddr (max s.maxFd fd) s.released s.outbox
      (Nat.le_refl _))
  | send fd j => cases h; exact .single (.send _ _)
  | takeRemovals =>
    cases h
    exact .single .takeRemovals
  | flush =>
    cases h
    exact .single (.quiet (s := s) s.now s.nextIdx s.nextAddr s.maxFd s.released [] (Nat.le_refl _))

/-! ### Coming and going -/

/-- The state in which `game_register_player` has put the new player on its tile. -/
def onTile (cfg : Config) (s : Server) (conn : Conn) (fd : Fd) (teamId : Nat) (draw : StartDraw) : Server :=
  gameAddPlayerToTile (allocPlayer cfg s conn fd teamId draw)
    (s.mapIndex ⟨draw.x % s.mapX, draw.y % s.mapY⟩) (s.nextAddr + 1)

theorem onTile_clientHeap (conn : Conn) (fd : Fd) (teamId : Nat) (draw : StartDraw) :
    (onTile cfg s conn fd teamId draw).clientHeap = (allocPlayer cfg s conn fd teamId draw).clientHeap := by
  rw [onTile, (addPlayer_same _ _ _).rest]

theorem onTile_nextAddr (conn : Conn) (fd : Fd) (teamId : Nat) (draw : StartDraw) :
    (onTile cfg s conn fd teamId draw).nextAddr = s.nextAddr + 2 := by
  rw [onTile, (addPlayer_same _ _ _).rest]
  rfl

/-- What is left of `game_register_player` writes to the teams and the slots only. -/
theorem enterGame_eq (conn : Conn) (fd : Fd) (teamId : Nat) (draw : StartDraw) :
    enterGame cfg s conn fd teamId draw = { onTile cfg s conn fd teamId draw with
      teams := ((teamAddPlayerToTeam s (newPlayer cfg s fd teamId draw)).map Server.teams).getD s.teams
      clients := ((addClientToServer s s.nextAddr).map Server.clients).getD s.clients } := by
  have hrest := (addPlayer_same (allocPlayer cfg s conn fd teamId draw)
    (s.mapIndex ⟨draw.x % s.mapX, draw.y % s.mapY⟩) (s.nextAddr + 1)).rest
  have hteams : (onTile cfg s conn fd teamId draw).teams = s.teams := by rw [onTile, hrest]; rfl
  have hclients : (onTile cfg s conn fd teamId draw).clients = s.clients := by rw [onTile, hrest]; rfl
  have hteam : ∀ s₁ : Server, s₁.teams = s.teams →
      (teamAddPlayerToTeam s₁ (newPlayer cfg s fd teamId draw)).getD s₁ = { s₁ with
        teams := ((teamAddPlayerToTeam s (newPlayer cfg s fd teamId draw)).map Server.teams).getD s.teams } := by
    intro s₁ h₁
    unfold teamAddPlayerToTeam
    rw [h₁]
    cases s.teams[(newPlayer cfg s fd teamId draw).teamId]? with
    | none => simp [← h₁]
    | some t =>
      simp only [Option.bind_some]
      split
      · simp [← h₁]
      · simp [Server.modTeam, h₁]
  have hclient : ∀ s₁ : Server, s₁.clients = s.clients →
      (addClientToServer s₁ s.nextAddr).getD s₁ =
        { s₁ with clients := ((addClientToServer s s.nextAddr).map Server.clients).getD s.clients } := by
    intro s₁ h₁
    unfold addClientToServer
    rw [h₁]
    cases s.clients.findIdx? fun slot => slot == none with
    | none => simp [← h₁]
    | some i => simp
  have he : enterGame cfg s conn fd teamId draw = (addClientToServer ((teamAddPlayerToTeam
      (onTile cfg s conn fd teamId draw) (newPlayer cfg s fd teamId draw)).getD (onTile cfg s conn fd teamId draw))
      s.nextAddr).getD ((teamAddPlayerToTeam (onTile cfg s conn fd teamId draw)
        (newPlayer cfg s fd teamId draw)).getD (onTile cfg s conn fd teamId draw)) := rfl
  rw [he, hteam _ hteams]
  exact hclient _ hclients

theorem releaseArgs_eq (b : EventBuffer) (s : Server) :
    releaseArgs b s = { s with released := (releaseArgs b s).released } := by
  unfold releaseArgs
  generalize List.range maxEvents = l
  induction l generalizing s with
  | nil => rfl
  | cons i l ih =>
    simp only [List.foldl_cons]
    rw [ih]
    split <;> rfl

/-- The state after the slot, the place in the team and the place on the map of a dead player are given up and
its message is sent. -/
def buried (s : Server) (cl : Client) (pl : Player) : Server :=
  ((freePlayer cl.player (gameRemovePlayerFromTile s cl.player)).record
    (.removed cl.player pl.inv)).createResponseToCommand cl.socketFd "-" (some "die") none

/-- `game_player_die` without food: an error of the slot table, an error of the team, or the end of the player,
with the descriptor queued and the client freed unless the descriptor is out of range. -/
theorem gamePlayerDie_cases (cfg : Config) (s : Server) (c : Addr) (cl : Client) {pl : Player}
    (hfood : pl.inv.nourriture ≤ 0) :
    (removeClientFromServer s c = none ∧ gamePlayerDie cfg s c cl pl = (.slotError, s)) ∨
    ∃ s₁, removeClientFromServer s c = some s₁ ∧
      ((teamRemovePlayerFromTeam s₁ pl = none ∧ gamePlayerDie cfg s c cl pl = (.teamError, s₁)) ∨
      ∃ s₂, teamRemovePlayerFromTeam s₁ pl = some s₂ ∧
        ((s.maxFd < cl.socketFd ∧ gamePlayerDie cfg s c cl pl = (.queueError, buried s₂ cl pl)) ∨
        (cl.socketFd ≤ s.maxFd ∧ gamePlayerDie cfg s c cl pl = (.died, freeClient c (releaseArgs cl.eventBuffer
          { buried s₂ cl pl with removeList := s.removeList ++ [(cl.socketFd, cl.conn)] }))))) := by
  unfold gamePlayerDie
  rw [if_neg (by omega)]
  cases h₁ : removeClientFromServer s c with
  | none => exact Or.inl ⟨rfl, rfl⟩
  | some s₁ =>
    refine Or.inr ⟨s₁, rfl, ?_⟩
    dsimp only
    cases h₂ : teamRemovePlayerFromTeam s₁ pl with
    | none => exact Or.inl ⟨rfl, rfl⟩
    | some s₂ =>
      refine Or.inr ⟨s₂, rfl, ?_⟩
      have hrest := (removePlayer_same s₂ cl.player).rest
      have h₁₂ : s₂.maxFd = s.maxFd ∧ s₂.removeList = s.removeList := by
        simp only [removeClientFromServer, Option.map_eq_some_iff] at h₁
        obtain ⟨i, -, rfl⟩ := h₁
        simp only [teamRemovePlayerFromTeam, Option.bind_eq_some_iff] at h₂
        obtain ⟨t, -, h₂⟩ := h₂
        split at h₂
        · cases h₂
        · cases h₂; exact ⟨rfl, rfl⟩
      have hmax : (buried s₂ cl pl).maxFd = s.maxFd := by
        rw [← h₁₂.1]
        change (gameRemovePlayerFromTile s₂ cl.player).maxFd = _
        rw [hrest]
      have hlist : (buried s₂ cl pl).removeList = s.removeList := by
        rw [← h₁₂.2]
        change (gameRemovePlayerFromTile s₂ cl.player).removeList = _
        rw [hrest]
      by_cases hfd : s.maxFd < cl.socketFd
      · refine Or.inl ⟨hfd, ?_⟩
        have : serverRemoveClient (buried s₂ cl pl) cl.socketFd cl.conn = none := by
          simp [serverRemoveClient, hmax, hfd]
        simp only [buried] at this ⊢
        rw [this]
      · refine Or.inr ⟨Nat.le_of_not_lt hfd, ?_⟩
        have : serverRemoveClient (buried s₂ cl pl) cl.socketFd cl.conn =
            some { buried s₂ cl pl with removeList := s.removeList ++ [(cl.socketFd, cl.conn)] } := by
          simp [serverRemoveClient, hmax, hfd, hlist]
        simp only [buried] at this ⊢
        rw [this]

theorem removeClientFromServer_some {c : Addr} (h : removeClientFromServer s c = some s') :
    ∃ i, s.clients[i]? = some (some c) ∧ s' = { s with clients := s.clients.set i none } := by
  simp only [removeClientFromServer, Option.map_eq_some_iff] at h
  obtain ⟨i, hi, rfl⟩ := h
  obtain ⟨hlt, hc, -⟩ := List.findIdx?_eq_some_iff_getElem.1 hi
  exact ⟨i, by rw [List.getElem?_eq_getElem hlt, eq_of_beq hc], rfl⟩

private theorem removeClientFromServer_none {c : Addr} (h : removeClientFromServer s c = none) :
    some c ∉ s.clients := by
  simp only [removeClientFromServer, Option.map_eq_none_iff, List.findIdx?_eq_none_iff] at h
  exact fun hmem => by simpa using h (some c) hmem

theorem teamRemovePlayerFromTeam_some {pl : Player} (h : teamRemovePlayerFromTeam s pl = some s') :
    ∃ t, s.teams[pl.teamId]? = some t ∧ 0 < t.currentPlayers ∧ s' = s.modTeam pl.teamId fun t =>
      { t with
        players := Function.update t.players t.currentPlayers.toNat 0
        currentPlayers := t.currentPlayers - 1 } := by
  simp only [teamRemovePlayerFromTeam, Option.bind_eq_some_iff] at h
  obtain ⟨t, ht, h⟩ := h
  split at h
  · cases h
  · cases h
    exact ⟨t, ht, by omega, rfl⟩

theorem buried_same (s : Server) (cl : Client) (pl : Player) : buried s cl pl = { s with
    map := (buried s cl pl).map
    playerHeap := (buried s cl pl).playerHeap
    outbox := (buried s cl pl).outbox
    ledger := (buried s cl pl).ledger } := by
  simp only [buried, freePlayer, Server.record, Server.createResponseToCommand, Server.send]
  rw [(removePlayer_same s cl.player).rest]

private theorem buried_vitals (s : Server) (cl : Client) (pl : Player) {q : Addr} (hq : q ≠ cl.player) :
    (buried s cl pl).vitalsOf q = s.vitalsOf q := by
  have htile := congrFun (removePlayer_same s cl.player).vitalsOf q
  calc (buried s cl pl).vitalsOf q
      = (Function.update (gameRemovePlayerFromTile s cl.player).playerHeap cl.player none q).map
          fun pl => (pl.dieTime, pl.inv) := rfl
    _ = (gameRemovePlayerFromTile s cl.player).vitalsOf q := by rw [Function.update_of_ne hq]; rfl
    _ = s.vitalsOf q := htile

/-- What the death of the client `cl` at `c` leaves: its slot is emptied, no other client is freed, its descriptor
may be queued, and no other player dies sooner or later. -/
structure Deceased (s s' : Server) (c : Addr) (cl : Client) : Prop where
  rest : s' = { s with
    map := s'.map, teams := s'.teams, clients := s'.clients, playerHeap := s'.playerHeap, clientHeap := s'.clientHeap,
    removeList := s'.removeList, released := s'.released, outbox := s'.outbox, ledger := s'.ledger }
  clients : (some c ∉ s.clients ∧ s'.clients = s.clients) ∨
    ∃ i, s.clients[i]? = some (some c) ∧ s'.clients = s.clients.set i none
  clientHeap : ∀ d, s'.clientHeap d = s.clientHeap d ∨ d = c ∧ s'.clientHeap d = none
  removeList : s'.removeList = s.removeList ∨ s'.removeList = s.removeList ++ [(cl.socketFd, cl.conn)]
  vitals : ∀ q, q ≠ cl.player → s'.vitalsOf q = s.vitalsOf q

theorem gamePlayerDie_deceased (cfg : Config) (s : Server) (c : Addr) (cl : Client) {pl : Player}
    (hfood : pl.inv.nourriture ≤ 0) : Deceased s (gamePlayerDie cfg s c cl pl).2 c cl := by
  rcases gamePlayerDie_cases cfg s c cl hfood with ⟨h₁, h⟩ | ⟨s₁, h₁, ⟨-, h⟩ | ⟨s₂, h₂, hend⟩⟩
  · rw [h]
    exact ⟨rfl, Or.inl ⟨removeClientFromServer_none h₁, rfl⟩, fun _ => Or.inl rfl, Or.inl rfl, fun _ _ => rfl⟩
  · obtain ⟨i, hi, rfl⟩ := removeClientFromServer_some h₁
    rw [h]
    exact ⟨rfl, Or.inr ⟨i, hi, rfl⟩, fun _ => Or.inl rfl, Or.inl rfl, fun _ _ => rfl⟩
  · obtain ⟨i, hi, rfl⟩ := removeClientFromServer_some h₁
    obtain ⟨t, -, -, rfl⟩ := teamRemovePlayerFromTeam_some h₂
    have hvitals : ∀ q, q ≠ cl.player → (buried (({ s with clients := s.clients.set i none } : Server).modTeam
        pl.teamId fun t => { t with
          players := Function.update t.players t.currentPlayers.toNat 0
          currentPlayers := t.currentPlayers - 1 }) cl pl).vitalsOf q = s.vitalsOf q :=
      fun q hq => buried_vitals _ cl pl hq
    rcases hend with ⟨-, h⟩ | ⟨-, h⟩
    · rw [h, buried_same]
      exact ⟨rfl, Or.inr ⟨i, hi, rfl⟩, fun _ => Or.inl rfl, Or.inl rfl, hvitals⟩
    · rw [h, releaseArgs_eq, buried_same]
      refine ⟨rfl, Or.inr ⟨i, hi, rfl⟩, fun d => ?_, Or.inr rfl, hvitals⟩
      simp only [freeClient, Function.update_apply]
      split
      · rename_i hd; exact Or.inr ⟨hd, rfl⟩
      · exact Or.inl rfl

/-! ### Invariants of runs -/

theorem BuffersWF.congr (hwf : BuffersWF s) (hc : s'.clientHeap = s.clientHeap)
    (hb : s'.eventBuffer = s.eventBuffer) : BuffersWF s' :=
  ⟨by rw [hc]; exact hwf.client, by rw [hb]; exact hwf.server⟩

theorem BuffersWF.setClientBuffer (hwf : BuffersWF s) {c : Addr} {cl : Client} {b : EventBuffer}
    (hcl : s.clientHeap c = some cl) (hb : b.WF) : BuffersWF (s.setClientBuffer c b) := by
  refine ⟨fun d dl hd => ?_, hwf.server⟩
  rw [setClientBuffer_heap b hcl] at hd
  split at hd
  · cases hd; exact hb
  · exact hwf.client d dl hd

theorem Effect.buffersWF (h : Effect cfg a s s') (hwf : BuffersWF s) : BuffersWF s' := by
  cases h with
  | serverBuffer b hb =>
    refine ⟨hwf.client, fun i cb hcb => ?_⟩
    rcases hb i cb hcb with rfl | ⟨j, hj⟩
    · rfl
    · exact hwf.server j cb hj
  | schedule hc hcl hb => exact hwf.setClientBuffer hcl (schedule_spec (hwf.client _ _ hcl) hb).2.1
  | pop hi hcl hcount => exact hwf.setClientBuffer hcl (EventBuffer.pop_wf (hwf.client _ _ hcl) hcount)
  | clearArg hcl hq =>
    have := hwf.client _ _ hcl
    exact hwf.setClientBuffer hcl ⟨this.head, this.count, this.tail⟩
  | front hpl hc hcl hb => exact hwf.setClientBuffer hcl (scheduleFront_spec (hwf.client _ _ hcl) hb).2.1
  | move hpl hql =>
    refine hwf.congr ?_ ?_
    all_goals rw [(movePlayer_same _ _ _).rest]
  | enter hname ht hfull =>
    rw [enterGame_eq]
    refine ⟨fun d dl hd => ?_, ?_⟩
    · simp only [onTile_clientHeap, allocPlayer, Function.update_apply] at hd
      split at hd
      · cases hd; exact EventBuffer.wf_zero
      · exact hwf.client d dl hd
    · simp only [onTile]
      rw [(addPlayer_same _ _ _).rest]
      exact hwf.server
  | @die _ chance i c cl pl hi hcl hpl hfood =>
    refine ⟨fun d dl hd => ?_, by rw [(gamePlayerDie_deceased cfg s c cl hfood).rest]; exact hwf.server⟩
    rcases (gamePlayerDie_deceased cfg s c cl hfood).clientHeap d with h | h
    · rw [h] at hd; exact hwf.client d dl hd
    · rw [h.2] at hd; cases hd
  | _ => exact hwf.congr rfl rfl

theorem gameStep_invariant {I : Server → Prop}
    (hI : ∀ a s s', Effect cfg a s s' → BuffersWF s → I s → I s') (hwf : BuffersWF s) (hs : I s)
    (h : gameStep cfg s a = some s') : BuffersWF s' ∧ I s' := by
  have heff := gameStep_effects hwf h
  clear h
  induction heff with
  | refl => exact ⟨hwf, hs⟩
  | tail _ he ih => exact ⟨he.buffersWF ih.1, hI a _ _ he ih.1 ih.2⟩

/-- What every elementary write keeps holds in every state a run of the game reaches. -/
theorem game_invariant {I : Server → Prop} (hI : ∀ a s s', Effect cfg a s s' → BuffersWF s → I s → I s')
    (hwf : BuffersWF s) (hs : I s) {as : List GameAction} (h : Run.run (gameStep cfg) s as = some s') :
    BuffersWF s' ∧ I s' := by
  refine Run.Guarded.invariant (G := fun _ _ => True) (I := fun s => BuffersWF s ∧ I s)
    (fun s a s' h _ hs => gameStep_invariant hI hs.1 hs.2 h) ?_ h ⟨hwf, hs⟩
  exact Run.AllSteps.of_forall fun _ _ _ _ => trivial

end Zappy

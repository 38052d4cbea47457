import Zappy.MachineSteps
import Zappy.ElevationRules

/-!
# Incantations that are paid for and never end (`m_command_incantation`)

The stones leave the tile before the completion is queued.  The lookup by descriptor may find another client than
the one whose event is running, and when the buffer of that client is full, the stones are gone for nothing.
-/

namespace Zappy

open Run

variable {cfg : Config} {width height : Nat} {s s' : Server} {p c : Addr} {pl : Player} {cl : Client} {origin : Conn}

/-! ### All or nothing -/

/-- The incantation has begun: its price is taken from the tile, one completion is queued, and the answer is
`in_progress`. -/
structure Begun (s s' : Server) (p : Addr) (pl : Player) : Prop where
  tiles : ∀ t, s'.map t =
    if t = s.mapIndex pl.pos then { s.map t with items := (s.map t).items.minus (levelReqs pl.level).inv }
    else s.map t
  queued : ∃ d dl dl' ev, s.clientHeap d = some dl ∧ s'.clientHeap d = some dl' ∧
    dl'.eventBuffer.queued = ev :: dl.eventBuffer.queued ∧ ev.callback = some .realIncantation ∧ ev.data = some p ∧
    (∀ e, e ≠ d → s'.clientHeap e = s.clientHeap e) ∧ s'.eventBuffer = s.eventBuffer
  answer : s'.outbox = s.outbox ++ [(pl.id, response "incantation" none (some "in_progress"))]

/-- No tile and no buffer is touched. -/
structure Untouched (s s' : Server) : Prop where
  tiles : s'.map = s.map
  clients : s'.clientHeap = s.clientHeap
  server : s'.eventBuffer = s.eventBuffer

/-- The first client on the descriptor has room for a completion. -/
def RoomOn (s : Server) (fd : Fd) : Prop :=
  ∃ c, s.gameGetClientFromFd fd = some c ∧ (s.clientBuffer c).count < maxEvents

/-- Every incantation costs linemate. -/
private theorem levelReqs_linemate {level : Int} (h1 : 1 ≤ level) (h7 : level < levelMax) :
    1 ≤ (levelReqs level).inv.linemate := by
  unfold levelMax at h7
  obtain rfl | rfl | rfl | rfl | rfl | rfl : level = 1 ∨ level = 2 ∨ level = 3 ∨ level = 4 ∨ level = 5 ∨
    level = 6 := by omega
  all_goals decide

private theorem payRitual_map (s : Server) (p : Addr) (pl : Player) (t : Nat) : (payRitual s p pl).map t =
    if t = s.mapIndex pl.pos then { s.map t with items := (s.map t).items.minus (levelReqs pl.level).inv }
    else s.map t := by
  simp only [payRitual, Server.record, Server.modTile, Function.update_apply]
  split
  · rename_i ht
    rw [ht]
  · rfl

/-- What is paid is seen on the tile. -/
private theorem payRitual_touches (h1 : 1 ≤ pl.level) (h7 : pl.level < levelMax) : (payRitual s p pl).map ≠ s.map := by
  intro he
  have htile := congrArg (fun map => (map (s.mapIndex pl.pos)).items.linemate) he
  have hcost := levelReqs_linemate h1 h7
  simp only [payRitual_map, if_true, Inventory.minus] at htile
  omega

/-! ### The second half -/

theorem queueCompletion_room (cfg : Config) (p : Addr) (origin : Conn)
    (hfound : s.gameGetClientFromFd pl.id = some c) (hcl : s.clientHeap c = some cl)
    (hroom : cl.eventBuffer.count < maxEvents) : ∃ b,
      timeApiScheduleClientEventFront s.now cl.eventBuffer (cfg.delay .incantation) (some .realIncantation) (some p)
        (some ⟨s.nextAddr, snprintf 12 pl.level⟩) origin = some b ∧
      queueCompletion cfg s p pl origin =
        ((s.strdup (snprintf 12 pl.level)).2.setClientBuffer c b).createResponseToCommand pl.id "incantation" none
          (some "in_progress") := by
  have hcl' : (s.strdup (snprintf 12 pl.level)).2.clientHeap c = some cl := hcl
  have hsome : (timeApiScheduleClientEventFront s.now cl.eventBuffer (cfg.delay .incantation) (some .realIncantation)
      (some p) (some ⟨s.nextAddr, snprintf 12 pl.level⟩) origin).isSome := scheduleFront_isSome hroom
  rcases modClient_getD hcl' (fun cl => timeApiScheduleClientEventFront s.now cl.eventBuffer
    (cfg.delay .incantation) (some .realIncantation) (some p) (some ⟨s.nextAddr, snprintf 12 pl.level⟩) origin)
    with ⟨hnone, -⟩ | ⟨b, hb, h'⟩
  · rw [hnone] at hsome
    cases hsome
  · refine ⟨b, hb, ?_⟩
    unfold queueCompletion
    simp only [hfound]
    exact congrArg (fun t : Server => t.createResponseToCommand pl.id "incantation" none (some "in_progress")) h'

/-- With no client on the descriptor, or a full buffer, no buffer gets the completion. -/
private theorem queueCompletion_lost (cfg : Config) (p : Addr) (origin : Conn) (hwf : BuffersWF s)
    (hfull : ¬ RoomOn s pl.id) : (queueCompletion cfg s p pl origin).map = s.map ∧
      (queueCompletion cfg s p pl origin).clientHeap = s.clientHeap := by
  rcases queueCompletion_cases cfg s p pl origin with ⟨-, h⟩ | ⟨c, cl, hfound, hcl, s₂, h, rfl | ⟨b, hb, -⟩⟩
  · rw [h]
    exact ⟨rfl, rfl⟩
  · rw [h]
    exact ⟨rfl, rfl⟩
  · refine absurd ⟨c, hfound, ?_⟩ hfull
    rw [clientBuffer_eq hcl]
    exact (scheduleFront_spec (hwf.client c cl hcl) hb).1

/-- The price of an incantation is paid with its completion queued exactly if the lookup finds a client with room. -/
private theorem begun_iff (hwf : BuffersWF s) :
    Begun s (queueCompletion cfg (payRitual s p pl) p pl origin) p pl ↔ RoomOn s pl.id := by
  have hpaid : BuffersWF (payRitual s p pl) := hwf.congr rfl rfl
  constructor
  · intro hbegun
    by_contra hfull
    have hfull' : ¬ RoomOn (payRitual s p pl) pl.id := hfull
    obtain ⟨-, hheap⟩ := queueCompletion_lost cfg p origin hpaid hfull'
    obtain ⟨d, dl, dl', ev, hdl, hdl', hqueued, -⟩ := hbegun.queued
    rw [hheap] at hdl'
    obtain rfl := Option.some.inj (hdl'.symm.trans hdl)
    have hlength := congrArg List.length hqueued
    rw [List.length_cons] at hlength
    omega
  · rintro ⟨c, hfound, hroom⟩
    obtain ⟨-, cl, hcl, -⟩ := gameGetClientFromFd_some hfound
    rw [clientBuffer_eq hcl] at hroom
    obtain ⟨b, hb, hqueue⟩ := queueCompletion_room (s := payRitual s p pl) cfg p origin hfound hcl hroom
    have hcl' : ((payRitual s p pl).strdup (snprintf 12 pl.level)).2.clientHeap c = some cl := hcl
    have hheap := setClientBuffer_heap b hcl'
    have hspec := (scheduleFront_spec (hwf.client c cl hcl) hb).2.2.2
    rw [hqueue]
    constructor
    case tiles => exact payRitual_map s p pl
    case queued =>
      refine ⟨c, cl, { cl with eventBuffer := b }, _, hcl, ?_, hspec, rfl, rfl, fun e he => ?_, rfl⟩
      · exact (hheap c).trans (if_pos rfl)
      · exact (hheap e).trans (if_neg he)
    case answer => rfl

/-- `m_command_incantation` on a placed player. -/
private theorem Placed.incantation_atomic (h : Placed width height s) (hwf : BuffersWF s) (hlevels : Levels s)
    (hpl : s.playerHeap p = some pl) (cfg : Config) (origin : Conn) :
    ∃ s', commandIncantation cfg s p pl origin = some s' ∧ (Begun s s' p pl ∨ Untouched s s' ↔
      gameCheckCanIncantation s pl true ≠ some .success ∨ RoomOn s pl.id) := by
  obtain ⟨l, hl, -, hlive, hlen⟩ := h.own_list hpl
  have hcheck : ∃ ret, gameCheckCanIncantation s pl true = some ret := by
    unfold gameCheckCanIncantation
    dsimp only
    rw [countLevel_eq hl hlive hlen]
    split
    · exact ⟨_, rfl⟩
    · split
      · exact ⟨_, rfl⟩
      · exact ⟨_, rfl⟩
  obtain ⟨ret, hret⟩ := hcheck
  obtain ⟨s', hs'⟩ : ∃ s', commandIncantation cfg s p pl origin = some s' := by
    unfold commandIncantation
    dsimp only
    split
    · exact ⟨_, rfl⟩
    · rw [hret]
      exact ⟨_, rfl⟩
  refine ⟨s', hs', ?_⟩
  by_cases hok : gameCheckCanIncantation s pl true = some .success
  · have h7 := gameCheckCanIncantation_success hok
    have h1 := (hlevels p pl.level (levelOf_eq hpl)).1
    have hqueue : s' = queueCompletion cfg (payRitual s p pl) p pl origin := by
      unfold commandIncantation at hs'
      dsimp only at hs'
      rw [if_neg (by omega), hok] at hs'
      exact (Option.some.inj hs').symm
    subst hqueue
    have htouched : ¬ Untouched s (queueCompletion cfg (payRitual s p pl) p pl origin) := by
      intro huntouched
      refine payRitual_touches h1 h7 (s := s) (p := p) ?_
      rw [← huntouched.tiles]
      rcases queueCompletion_cases cfg (payRitual s p pl) p pl origin with
        ⟨-, h'⟩ | ⟨c, cl, -, -, s₂, h', rfl | ⟨b, -, rfl⟩⟩
      · rw [h']
      · rw [h']
        rfl
      · rw [h']
        rfl
    rw [or_iff_left htouched, begun_iff hwf]
    simp [hok]
  · obtain rfl | ⟨hret', -⟩ := commandIncantation_cases hs'
    · exact iff_of_true (Or.inr ⟨rfl, rfl, rfl⟩) (Or.inl hok)
    · exact absurd hret' hok

/-! ### Runs -/

/-- Players stay placed and levels in their bounds along every run of the machine. -/
private theorem placed_of_machine_run (hw : 0 < width) (hh : 0 < height) {teams : List String} {nbClients : Nat}
    {counts : Nat → InventoryType → Nat} {as : List MachineAction} {m : Machine}
    (h : run (machineStep cfg) (machineInit cfg width height teams nbClients counts) as = some m) :
    BuffersWF m.server ∧ Placed width height m.server ∧ Levels m.server :=
  machine_invariant (I := fun s => Placed width height s ∧ Levels s)
    (fun _ _ _ he _ hI => ⟨he.placed hw hh hI.1, he.levels hI.2⟩) (buffersWF_init _ _ _)
    ⟨placed_init _ _ _ _ _, levels_init _ _ _⟩ h

/-- In every state that a run of the machine reaches, whatever a turn has left in the buffer of its client,
`m_command_incantation` begins the incantation or touches nothing exactly if the check fails or the first client on
the descriptor of the player has fewer than ten events queued. -/
theorem incantation_atomic_iff (cfg : Config) {width height : Nat} (hw : 0 < width) (hh : 0 < height)
    (teams : List String) (nbClients : Nat) (counts : Nat → InventoryType → Nat) (as : List MachineAction)
    {m : Machine} (h : run (machineStep cfg) (machineInit cfg width height teams nbClients counts) as = some m)
    {c : Addr} {cl : Client} (hcl : m.server.clientHeap c = some cl) {b : EventBuffer} (hb : b.WF) {p : Addr}
    {pl : Player} (hpl : m.server.playerHeap p = some pl) (origin : Conn) :
    ∃ s', commandIncantation cfg (m.server.setClientBuffer c b) p pl origin = some s' ∧
      (Begun (m.server.setClientBuffer c b) s' p pl ∨ Untouched (m.server.setClientBuffer c b) s' ↔
        gameCheckCanIncantation (m.server.setClientBuffer c b) pl true ≠ some .success ∨
          RoomOn (m.server.setClientBuffer c b) pl.id) := by
  obtain ⟨hwf, hplaced, hlevels⟩ := placed_of_machine_run hw hh h
  have hset : Placed width height (m.server.setClientBuffer c b) := hplaced.congr rfl rfl rfl rfl (Nat.le_refl _)
  exact hset.incantation_atomic (hwf.setClientBuffer hcl hb) hlevels hpl cfg origin

/-- Two stones of each kind on one tile, for two players. -/
def ritualMachine : Machine := machineInit shippedConfig 1 1 ["red"] 2 fun _ _ => 2

def asks (cmd : String) : MachineAction := .receive (.text (some { type := "cmd", cmd := cmd })) ⟨0, 0, 0⟩

/-- Two players, the first of which may begin an incantation. -/
theorem incantation_atomic_iff_two : ∃ (m : Machine) (pl : Player) (s' : Server),
    run (machineStep shippedConfig) ritualMachine (enters 4 ++ enters 5) = some m ∧
    m.server.playerHeap 1 = some pl ∧
    commandIncantation shippedConfig (m.server.setClientBuffer 0 {}) 1 pl 1 = some s' ∧
    (Begun (m.server.setClientBuffer 0 {}) s' 1 pl ∨ Untouched (m.server.setClientBuffer 0 {}) s') := by
  have hrun : ((run (machineStep shippedConfig) ritualMachine (enters 4 ++ enters 5)).bind fun m =>
      (m.server.clientHeap 0).bind fun cl => (m.server.playerHeap 1).map fun pl =>
        ((m.server.setClientBuffer 0 {}).gameGetClientFromFd pl.id,
          ((m.server.setClientBuffer 0 {}).clientBuffer 0).count)) = some (some 0, 0) := by decide +kernel
  obtain ⟨m, hm, hmap⟩ := Option.bind_eq_some_iff.1 hrun
  obtain ⟨cl, hcl, hmap⟩ := Option.bind_eq_some_iff.1 hmap
  obtain ⟨pl, hpl, hfacts⟩ := Option.map_eq_some_iff.1 hmap
  obtain ⟨hfound, hcount⟩ := Prod.mk.inj hfacts
  obtain ⟨s', hs', hiff⟩ := incantation_atomic_iff shippedConfig (by decide) (by decide) _ _ _ _ hm hcl
    EventBuffer.wf_zero hpl 1
  exact ⟨m, pl, s', hm, hpl, hs', hiff.2 (Or.inr ⟨0, hfound, by rw [hcount]; decide⟩)⟩

/-- The second player queues an incantation, the first one leaves, and the connection of the second one logs in
again and fills the buffer of its new client, which is the first one in the table. -/
def lostRitual : List MachineAction :=
  enters 5 ++ enters 4 ++ scanPass [4] [asks "fork"] 0 ++ scanPass [4] [asks "incantation"] 0 ++
    scanPass [5] [.receive .closed ⟨0, 0, 0⟩] 0 ++ scanPass [3] [.acceptFailed] 1 ++
    scanPass [4] [.receive loginMessage ⟨0, 0, 0⟩] 0 ++ [.tick 1] ++
    (List.replicate 10 (scanPass [4] [asks "fork"] 0)).flatten ++
    [.tick 42, .lookupEnd, .select [], .playSlot {}, .playSlot {}, .playServer {}, .lookupEnd, .select [], .playSlot {}]

/-- The incantation that is due takes the stones and queues nothing. -/
theorem stones_lost : ∃ (m : Machine) (cl : Client) (pl : Player) (s' : Server),
    run (machineStep shippedConfig) ritualMachine lostRitual = some m ∧ m.phase = .play 1 ∧
    m.server.clients[1]? = some (some 2) ∧ m.server.clientHeap 2 = some cl ∧
    m.server.playerHeap cl.player = some pl ∧
    (cl.eventBuffer.queued.head?.bind Event.callback) = some (.command .incantation) ∧
    commandIncantation shippedConfig (m.server.setClientBuffer 2 cl.eventBuffer.pop) cl.player pl cl.conn = some s' ∧
    ¬ Begun (m.server.setClientBuffer 2 cl.eventBuffer.pop) s' cl.player pl ∧
    ¬ Untouched (m.server.setClientBuffer 2 cl.eventBuffer.pop) s' := by
  have hrun : ((run (machineStep shippedConfig) ritualMachine lostRitual).bind fun m =>
      (m.server.clientHeap 2).bind fun cl => (m.server.playerHeap cl.player).map fun pl =>
        [decide (m.phase = .play 1), decide (m.server.clients[1]? = some (some 2)),
          decide ((cl.eventBuffer.queued.head?.bind Event.callback) = some (.command .incantation)),
          decide (cl.eventBuffer.count = 1),
          decide (gameCheckCanIncantation (m.server.setClientBuffer 2 cl.eventBuffer.pop) pl true = some .success),
          decide ((m.server.setClientBuffer 2 cl.eventBuffer.pop).gameGetClientFromFd pl.id = some 4),
          decide (((m.server.setClientBuffer 2 cl.eventBuffer.pop).clientBuffer 4).count = 10)]) =
      some [true, true, true, true, true, true, true] := by decide +kernel
  obtain ⟨m, hm, hmap⟩ := Option.bind_eq_some_iff.1 hrun
  obtain ⟨cl, hcl, hmap⟩ := Option.bind_eq_some_iff.1 hmap
  obtain ⟨pl, hpl, hfacts⟩ := Option.map_eq_some_iff.1 hmap
  simp only [List.cons.injEq, decide_eq_true_eq, and_true] at hfacts
  obtain ⟨hphase, hslot, hdue, hone, hcheck, hfound, hcount⟩ := hfacts
  obtain ⟨hwf, hplaced, hlevels⟩ := placed_of_machine_run (by decide) (by decide) hm
  have hset : Placed 1 1 (m.server.setClientBuffer 2 cl.eventBuffer.pop) :=
    hplaced.congr rfl rfl rfl rfl (Nat.le_refl _)
  have hpop : cl.eventBuffer.pop.WF := EventBuffer.pop_wf (hwf.client 2 cl hcl) (by omega)
  obtain ⟨s', hs', hiff⟩ :=
    hset.incantation_atomic (hwf.setClientBuffer hcl hpop) hlevels hpl shippedConfig cl.conn
  have hnot : ¬ (Begun (m.server.setClientBuffer 2 cl.eventBuffer.pop) s' cl.player pl ∨
      Untouched (m.server.setClientBuffer 2 cl.eventBuffer.pop) s') := by
    rw [hiff]
    rintro (hfails | ⟨c, hc, hroom⟩)
    · exact hfails hcheck
    · obtain rfl := Option.some.inj (hc.symm.trans hfound)
      rw [hcount] at hroom
      exact absurd hroom (by decide)
  exact ⟨m, cl, pl, s', hm, hphase, hslot, hcl, hpl, hdue, hs', fun hb => hnot (Or.inl hb),
    fun hu => hnot (Or.inr hu)⟩

end Zappy

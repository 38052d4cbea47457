import Zappy.Fleet
import Zappy.Survival

/-!
# What the clients of the fleet know

The clients of `Fleet.lean` keep what the results about one client assume of it: its views are those of a player that
nobody has raised, and the answers that report stones are those of its own player.  So, whatever the interleaving, the
flow control of every open client holds, no command is lost, every view is recorded, and every client that has read
its messages holds the stones of its player.
-/

namespace Zappy

open Run Stateful Slots

variable {cfg : Config} {K : Conn} {width height : Nat} {F F' : Fleet} {act : FleetAction} {m : Machine}
  {a : MachineAction} {p : Addr} {pl : Player}

/-! ### Who is answered -/

/-- A command is called for the player of a client that is attached to its connection. -/
theorem Machine.Sessions.calls {type : CommandType} (h : m.Sessions) (hcalls : m.calls a = some (type, p))
    (hpl : m.server.playerHeap p = some pl) :
    ∃ c cl, LiveClient m.server c cl ∧ cl.player = p ∧ pl.id = cl.socketFd ∧ Attached m cl := by
  obtain ⟨chance, i, ev, -, -, hev, -, hdata⟩ := Machine.calls_some hcalls
  obtain ⟨_, _, c, cl, pl', -, hat, halive, hcount, rfl⟩ := executed_some hev
  have hc : LiveClient m.server c cl := ⟨mem_of_getElem? hat.slot, hat.client⟩
  have hqueued : cl.eventBuffer.events cl.eventBuffer.head ∈ cl.eventBuffer.queued := by
    rw [EventBuffer.queued_pop (h.game.wf.client c cl hat.client) hcount]
    exact List.mem_cons_self
  obtain rfl : p = cl.player := Option.some.inj (hdata.symm.trans (h.game.events c cl hc _ hqueued).1)
  obtain ⟨cl', pl'', hcl', hpl'', hfd⟩ := h.game.reg.client_heap hc.live
  obtain rfl : cl' = cl := Option.some.inj (hcl'.symm.trans hc.heap)
  obtain rfl : pl'' = pl := Option.some.inj (hpl''.symm.trans hpl)
  exact ⟨c, cl', hc, rfl, hfd, h.attached hat halive⟩

/-- The answer to a command goes to the connection that its player plays for. -/
private theorem Machine.Sessions.answersOwn (h : m.Sessions) (K : Conn) (a : MachineAction) : AnswersOwn K m a := by
  intro type p pl hcalls _ hpl
  obtain ⟨c, cl, hc, rfl, hfd, hatt⟩ := h.calls hcalls hpl
  rw [hfd, hatt.session, Option.some.injEq]
  constructor
  · exact fun hconn => ⟨c, cl, hc, hconn, rfl⟩
  · rintro ⟨d, dl, hd, rfl, hsame⟩
    -- no two clients play the same player
    obtain ⟨fd, q, team, hck, -⟩ := h.game.reg.client c hc.live
    obtain rfl : d = c := by
      refine h.game.reg.distinct d hd.live c hc.live dl.socketFd cl.socketFd cl.player ?_ ?_
      · simp [Server.clientKey, hd.heap, hsame]
      · simp [Server.clientKey, hc.heap]
    rw [Option.some.inj (hc.heap.symm.trans hd.heap)]

/-! ### The steps -/

/-- What holds of the fleet and of what its clients know. -/
structure Fleet.Informed (width height : Nat) (F : Fleet) : Prop where
  inv : F.Inv width height
  views : ∀ K, ViewInv width height K (F.duplex K)
  stones : ∀ K, ∃ news, MirrorInv K (F.duplex K) news

/-- A view is asked for by a player of level 1, after it was welcomed. -/
private theorem Fleet.Informed.looksUnraised (h : F.Informed width height) (K : Conn) (a : DuplexAction) :
    LooksUnraised K (F.duplex K) a := by
  cases a with
  | server a =>
    intro p pl hcalls hpl hsession
    refine ⟨h.inv.peace.first p pl.level (levelOf_eq hpl), ?_⟩
    obtain ⟨c, cl, hc, -, hfd, hatt⟩ := h.inv.sessions.calls hcalls hpl
    have hconn : cl.conn = K := by
      have hsession : F.machine.session pl.id = some K := hsession
      rw [hfd, hatt.session] at hsession
      exact Option.some.inj hsession
    obtain ⟨news, hmirror⟩ := h.stones K
    refine (hmirror.machine.logins ?_).2
    rw [← hconn]
    exact h.inv.sessions.game.loggedIn c cl hc
  | _ => trivial

private theorem Fleet.Informed.ownStones (h : F.Informed width height) (K : Conn) (a : DuplexAction) :
    OwnStones K (F.duplex K) a where
  once := (h.inv.links K).loginsIn_le
  answers := fun act _ => h.inv.sessions.answersOwn K act

theorem Fleet.Informed.step (hw : 0 < width) (hh : 0 < height) (h : F.Informed width height) (hG : FleetGuard F act)
    (hstep : fleetStep cfg F act = some F') : F'.Informed width height := by
  constructor
  case inv => exact h.inv.step hw hh hG hstep
  case views =>
    intro K
    rcases fleetStep_duplex hstep K with ⟨-, hsame⟩ | ⟨a, -, ha⟩
    · rw [hsame]
      exact h.views K
    · exact (h.views K).step hw hh (h.looksUnraised K a) ha
  case stones =>
    intro K
    obtain ⟨news, hmirror⟩ := h.stones K
    rcases fleetStep_duplex hstep K with ⟨-, hsame⟩ | ⟨a, -, ha⟩
    · rw [hsame]
      exact ⟨news, hmirror⟩
    · exact hmirror.step (h.ownStones K a) ha

theorem fleetInformed_init (teams : List String) (nbClients : Nat) (counts : Nat → InventoryType → Nat)
    (teamNames : Conn → String) :
    (fleetInit cfg width height teams nbClients counts teamNames).Informed width height where
  inv := fleetInv_init teams nbClients counts teamNames
  views := fun K => viewInv_init cfg width height teams nbClients counts (teamNames K) K
  stones := fun K => ⟨[], mirrorInv_init cfg width height teams nbClients counts (teamNames K) K⟩

/-! ### Runs -/

private theorem fleet_informed (hw : 0 < width) (hh : 0 < height) {teams : List String} {nbClients : Nat}
    {counts : Nat → InventoryType → Nat} {teamNames : Conn → String} {as : List FleetAction}
    (hG : Guarded (fleetStep cfg) FleetGuard (fleetInit cfg width height teams nbClients counts teamNames) as)
    (h : run (fleetStep cfg) (fleetInit cfg width height teams nbClients counts teamNames) as = some F) :
    F.Informed width height :=
  hG.invariant (I := Fleet.Informed width height) (fun _ _ _ hstep hG h => h.step hw hh hG hstep) h
    (fleetInformed_init ..)

def shippedFleet : Fleet := fleetInit shippedConfig 1 1 ["red"] 2 (fun _ _ => 1) fun _ => "red"

/-- A test for `FleetGuard`. -/
def fleetTest (F : Fleet) : FleetAction → Bool
  | .server (.accept fd) => !F.machine.pending.contains fd
  | _ => true

private theorem fleetGuard_of_test (F : Fleet) (act : FleetAction) (h : fleetTest F act) : FleetGuard F act := by
  cases act with
  | server a =>
    cases a with
    | accept fd => simpa [FleetGuard, AcceptIdle, fleetTest] using h
    | _ => trivial
  | _ => trivial

/-- The client of the first connection, on the descriptor 4, connects and logs in. -/
def fleetEnters : List FleetAction :=
  (scanPass [3] [.accept 4] 0 ++ handshakePass).map .server ++ [.message 1 0] ++
    (scanPass [4] [.receive loginMessage ⟨0, 0, 0⟩] 0).map .server ++ [.message 1 0]

/-- The server receives the next command of the client, answers it at the time `t`, and the client reads the answer. -/
def served (cmd : Command) (t : Nat) : List FleetAction :=
  (scanPass [4] [.receive (.text (some (createCommandJsonMessage cmd))) ⟨0, 0, 0⟩] 0 ++ idlePass t).map .server ++
    [.message 1 0]

/-- The client looks around, and takes the food that it sees. -/
def fleetTakesFood : List FleetAction :=
  fleetEnters ++ served { type := .voir } 7 ++ served { type := .prend, argument := "nourriture" } 14

theorem fleetTakesFood_guarded : Guarded (fleetStep shippedConfig) FleetGuard shippedFleet fleetTakesFood := by
  have hguard : testGuard (fleetStep shippedConfig) fleetTest shippedFleet fleetTakesFood := by decide +kernel
  exact .of_test fleetGuard_of_test hguard

/-- In every run of the server and its clients in which `accept` returns no descriptor with a pending handshake: the
counter of a client is right as long as its session is open, and what was received from a client was answered, in
order, or is queued for it, and nothing else. -/
theorem fleet_loses_nothing (cfg : Config) {width height : Nat} (hw : 0 < width) (hh : 0 < height)
    (teams : List String) (nbClients : Nat) (counts : Nat → InventoryType → Nat) (teamNames : Conn → String)
    (as : List FleetAction) {F : Fleet}
    (hG : Guarded (fleetStep cfg) FleetGuard (fleetInit cfg width height teams nbClients counts teamNames) as)
    (h : run (fleetStep cfg) (fleetInit cfg width height teams nbClients counts teamNames) as = some F) (K : Conn) :
    ((F.links K).agent.client.sessionOpen = true → FlowOk K (F.duplex K)) ∧
      answered (F.machine.wireTo K) <+: commandNames (F.duplex K).received ∧
      ∀ c cl, LiveClient F.machine.server c cl → F.machine.session cl.socketFd = some K →
        answered (F.machine.wireTo K) ++ cl.eventBuffer.owed = commandNames (F.duplex K).received := by
  have hlink := (fleet_informed hw hh hG h).inv.links K
  exact ⟨fun hopen => (hlink.open hopen).flowOk, hlink.lossless.answers, hlink.lossless.pending⟩

theorem fleet_loses_nothing_food : ∃ F, run (fleetStep shippedConfig) shippedFleet fleetTakesFood = some F ∧
    FlowOk 1 (F.duplex 1) ∧ (F.links 1).agent.client.pendingResponses = 2 ∧
    answered (F.machine.wireTo 1) = ["voir", "prend"] ∧ ["voir", "prend"] <+: commandNames (F.duplex 1).received := by
  have hrun : (run (fleetStep shippedConfig) shippedFleet fleetTakesFood).map
      (fun F => ((F.links 1).agent.client.sessionOpen, (F.links 1).agent.client.pendingResponses,
        answered (F.machine.wireTo 1))) = some (true, 2, ["voir", "prend"]) := by decide +kernel
  obtain ⟨F, hF, hfacts⟩ := Option.map_eq_some_iff.1 hrun
  simp only [Prod.mk.injEq] at hfacts
  obtain ⟨hopen, hpending, hanswered⟩ := hfacts
  obtain ⟨hflow, horder, -⟩ := fleet_loses_nothing shippedConfig Nat.one_pos Nat.one_pos ["red"] 2 (fun _ _ => 1)
    (fun _ => "red") fleetTakesFood fleetTakesFood_guarded hF 1
  rw [hanswered] at horder
  exact ⟨F, hF, hflow hopen, hpending, hanswered, horder⟩

/-- In every such run each client logs in once at most, so that no two players share a descriptor, all players stay on
level 1, and the server writes plain messages only, none of which is a notice. -/
theorem fleet_stays_plain (cfg : Config) {width height : Nat} (hw : 0 < width) (hh : 0 < height)
    (teams : List String) (nbClients : Nat) (counts : Nat → InventoryType → Nat) (teamNames : Conn → String)
    (as : List FleetAction) {F : Fleet}
    (hG : Guarded (fleetStep cfg) FleetGuard (fleetInit cfg width height teams nbClients counts teamNames) as)
    (h : run (fleetStep cfg) (fleetInit cfg width height teams nbClients counts teamNames) as = some F) :
    (∀ K, loginsIn (F.links K).agent.client.sent ≤ 1) ∧ UniqueFds F.machine.server ∧ AllFirst F.machine.server ∧
      ∀ e ∈ F.machine.wire, Plain width height e.2 ∧ e.2.kind ≠ .notice := by
  have hinv := (fleet_informed hw hh hG h).inv
  refine ⟨fun K => (hinv.links K).loginsIn_le, hinv.sessions.game.unique, hinv.peace.first, fun e he => ?_⟩
  exact ⟨hinv.peace.plain e he, (hinv.peace.plain e he).kind⟩

theorem fleet_stays_plain_food : ∃ F, run (fleetStep shippedConfig) shippedFleet fleetTakesFood = some F ∧
    AllFirst F.machine.server ∧ F.machine.wire.length = 4 ∧ ∀ e ∈ F.machine.wire, Plain 1 1 e.2 := by
  have hrun : (run (fleetStep shippedConfig) shippedFleet fleetTakesFood).map (fun F => F.machine.wire.length) =
      some 4 := by decide +kernel
  obtain ⟨F, hF, hlength⟩ := Option.map_eq_some_iff.1 hrun
  obtain ⟨-, -, hfirst, hplain⟩ := fleet_stays_plain shippedConfig Nat.one_pos Nat.one_pos ["red"] 2 (fun _ _ => 1)
    (fun _ => "red") fleetTakesFood fleetTakesFood_guarded hF
  exact ⟨F, hF, hfirst, hlength, fun e he => (hplain e he).1⟩

/-- In every such run each client records every view that it processes. -/
theorem fleet_records_views (cfg : Config) {width height : Nat} (hw : 0 < width) (hh : 0 < height)
    (teams : List String) (nbClients : Nat) (counts : Nat → InventoryType → Nat) (teamNames : Conn → String)
    (as : List FleetAction)
    (hG : Guarded (fleetStep cfg) FleetGuard (fleetInit cfg width height teams nbClients counts teamNames) as) :
    AllSteps (fleetStep cfg) (fun F act F' => ∀ K draw msg, act = .message K draw → F.next K = some msg →
        msg.answered = some "voir" → ViewRecorded msg (F.links K).agent.client (F'.links K).agent.client)
      (fleetInit cfg width height teams nbClients counts teamNames) as := by
  refine hG.allSteps (I := Fleet.Informed width height) (fun F a F' hstep hG h => h.step hw hh hG hstep) ?_
    (fleetInformed_init ..)
  rintro F _ F' hstep - h K draw msg rfl hmsg hvoir
  rcases fleetStep_duplex hstep K with ⟨hsees, -⟩ | ⟨a, hsees, ha⟩
  · simp [Fleet.sees] at hsees
  · obtain rfl : .message (F.advice K draw) = a := Option.some.inj ((if_pos rfl).symm.trans hsees)
    obtain ⟨msg', -, hmsg', hd⟩ := duplexStep_message ha
    obtain rfl : msg = msg' := Option.some.inj (hmsg.symm.trans hmsg')
    have hview := h.views K
    have hclient : (F'.links K).agent.client =
        finalState (handleResponse (F.advice K draw) msg) (F.links K).agent.client := congrArg Duplex.client hd
    rw [hclient]
    rcases hview.wire _ msg hmsg with hunseeing | ⟨hfirst, hwelcomed⟩
    · exact absurd hvoir hunseeing.answered
    · exact (hview.view hw hh hfirst hwelcomed _).1

theorem fleet_records_views_first : ∃ F F' msg,
    run (fleetStep shippedConfig) shippedFleet (fleetEnters ++ (served { type := .voir } 7).dropLast) = some F ∧
    fleetStep shippedConfig F (.message 1 0) = some F' ∧ F.next 1 = some msg ∧ msg.answered = some "voir" ∧
    ViewRecorded msg (F.links 1).agent.client (F'.links 1).agent.client := by
  have hrun : (run (fleetStep shippedConfig) shippedFleet (fleetEnters ++ (served { type := .voir } 7).dropLast)).map
      (fun F => ((F.links 1).agent.client.sessionOpen, (F.next 1).bind Json.answered)) = some (true, some "voir") := by
    decide +kernel
  have hguard : testGuard (fleetStep shippedConfig) fleetTest shippedFleet
      (fleetEnters ++ (served { type := .voir } 7).dropLast ++ [.message 1 0]) := by decide +kernel
  obtain ⟨F, hF, hfacts⟩ := Option.map_eq_some_iff.1 hrun
  obtain ⟨hopen, hvoir⟩ := Prod.mk.inj hfacts
  obtain ⟨msg, hmsg, hvoir⟩ := Option.bind_eq_some_iff.1 hvoir
  have hstep : ∃ F', fleetStep shippedConfig F (.message 1 0) = some F' :=
    ⟨_, by rw [fleetStep, if_pos hopen, hmsg, Option.map_some]⟩
  obtain ⟨F', hF'⟩ := hstep
  have hall := fleet_records_views shippedConfig Nat.one_pos Nat.one_pos ["red"] 2 (fun _ _ => 1) (fun _ => "red") _
    (.of_test fleetGuard_of_test hguard)
  exact ⟨F, F', msg, hF, hF', hmsg, hvoir, hall.at_step hF hF' 1 0 msg rfl hmsg hvoir⟩

/-- In every such run a client that has read all its messages holds the stones of its player. -/
theorem fleet_mirrors_stones (cfg : Config) {width height : Nat} (hw : 0 < width) (hh : 0 < height)
    (teams : List String) (nbClients : Nat) (counts : Nat → InventoryType → Nat) (teamNames : Conn → String)
    (as : List FleetAction) {F : Fleet}
    (hG : Guarded (fleetStep cfg) FleetGuard (fleetInit cfg width height teams nbClients counts teamNames) as)
    (h : run (fleetStep cfg) (fleetInit cfg width height teams nbClients counts teamNames) as = some F) (K : Conn) :
    StonesMirrored K (F.duplex K) := by
  obtain ⟨news, hmirror⟩ := (fleet_informed hw hh hG h).stones K
  intro hread c cl pl hc hconn hpl r hr
  have hall : news.take (F.duplex K).read = news := by
    rw [hread, hmirror.machine.reports.length_eq, List.take_length]
  have hcounts := congrFun hmirror.counts r
  rw [hall, hmirror.machine.agree cl.player pl ⟨c, cl, hc, hconn, rfl⟩ hpl r hr] at hcounts
  exact hcounts

theorem fleet_mirrors_stones_food : ∃ F c cl pl, run (fleetStep shippedConfig) shippedFleet fleetTakesFood = some F ∧
    LiveClient F.machine.server c cl ∧ F.machine.server.playerHeap cl.player = some pl ∧
    ∀ r, r ≠ .nourriture → (F.links 1).agent.client.getInventoryCount r.resource = pl.inv.get r := by
  have hrun : ((run (fleetStep shippedConfig) shippedFleet fleetTakesFood).bind fun F =>
      (F.machine.server.clientHeap 0).bind fun cl => (F.machine.server.playerHeap cl.player).map fun _ =>
        [decide ((F.links 1).read = (F.machine.wireTo 1).length), decide (0 ∈ F.machine.server.live),
          decide (cl.conn = 1)]) = some [true, true, true] := by decide +kernel
  obtain ⟨F, hF, hrun⟩ := Option.bind_eq_some_iff.1 hrun
  obtain ⟨cl, hcl, hrun⟩ := Option.bind_eq_some_iff.1 hrun
  obtain ⟨pl, hpl, hfacts⟩ := Option.map_eq_some_iff.1 hrun
  simp only [List.cons.injEq, decide_eq_true_eq, and_true] at hfacts
  obtain ⟨hread, hlive, hconn⟩ := hfacts
  have hall := fleet_mirrors_stones shippedConfig Nat.one_pos Nat.one_pos ["red"] 2 (fun _ _ => 1) (fun _ => "red")
    fleetTakesFood fleetTakesFood_guarded hF 1
  exact ⟨F, 0, cl, pl, hF, ⟨hlive, hcl⟩, hpl, hall hread 0 cl pl ⟨hlive, hcl⟩ hconn hpl⟩

end Zappy

import Zappy.JavaClient
import Zappy.TileLists

/-!
# Notices to other players

`m_command_broadcast` and `m_command_expulse` tell other players what happened through
`server_create_response_to_command`, so a notice has the type of an answer: `response`.  The client expects the types
`broadcast` and `kick`, with other fields.
-/

namespace Zappy

open LinkedList

/-! ### What the server sends -/

/-- The player of a client. -/
def Server.playerOf (s : Server) (c : Addr) : Option Player :=
  (s.clientHeap c).bind fun cl => s.playerHeap cl.player

/-- The direction that a broadcast of `pl` has for `receiver`. -/
def noticeDirection (cfg : Config) (s : Server) (pl receiver : Player) : Int :=
  computeBroadcastDirection cfg.sector receiver.pos receiver.dir pl.pos s.mapX s.mapY

/-- The notice of a broadcast. -/
def broadcastNotice (cfg : Config) (s : Server) (pl : Player) (text : Option String) (receiver : Player) :
    Fd × Json :=
  (receiver.id, response "message" (some (snprintf 4 (noticeDirection cfg s pl receiver))) text)

/-- The notice of an expulsion. -/
def expulsionNotice (pl : Player) (fd : Fd) : Fd × Json :=
  (fd, response "deplacement" none (some (directionTable pl.dir pl.dir)))

variable {cfg : Config} {s s' : Server} {pl : Player}

private theorem broadcastTurns_outbox {arg : Option Arg} {slots : List (Option Addr)} (out : List (Fd × Json))
    (h : slots.foldlM (broadcastTurn cfg pl arg) { s with outbox := out } = some s') :
    ∃ receivers, (slots.filterMap id).mapM s.playerOf = some receivers ∧
      s' = { s with outbox := out ++ receivers.map (broadcastNotice cfg s pl (arg.map Arg.text)) } := by
  induction slots generalizing out with
  | nil =>
    cases h
    exact ⟨[], rfl, by simp⟩
  | cons slot slots ih =>
    simp only [List.foldlM_cons, Option.bind_eq_bind, Option.bind_eq_some_iff] at h
    obtain ⟨s₁, hturn, hturns⟩ := h
    cases slot with
    | none =>
      cases hturn
      obtain ⟨receivers, hplayers, rfl⟩ := ih out hturns
      exact ⟨receivers, hplayers, rfl⟩
    | some c =>
      simp only [broadcastTurn, Option.bind_eq_some_iff, Option.map_eq_some_iff] at hturn
      obtain ⟨cl, hcl, receiver, hreceiver, rfl⟩ := hturn
      obtain ⟨receivers, hplayers, rfl⟩ := ih _ hturns
      have hplayer : s.playerOf c = some receiver := by
        rw [Server.playerOf, hcl]
        exact hreceiver
      refine ⟨receiver :: receivers, ?_, ?_⟩
      · have hids : (some c :: slots).filterMap id = c :: slots.filterMap id := rfl
        rw [hids, List.mapM_cons, hplayer, hplayers]
        rfl
      · simp only [List.map_cons, List.append_assoc, List.singleton_append]
        rfl

/-- A broadcast sends a notice to the player of every client, and then its answer. -/
private theorem commandBroadcast_outbox {arg : Option Arg} (h : commandBroadcast cfg s pl arg = some s') :
    ∃ receivers, (s.clients.filterMap id).mapM s.playerOf = some receivers ∧
      s'.outbox = s.outbox ++ receivers.map (broadcastNotice cfg s pl (arg.map Arg.text)) ++
        [(pl.id, response "broadcast" none (some "ok"))] := by
  rw [commandBroadcast, Option.map_eq_some_iff] at h
  obtain ⟨s₁, hturns, rfl⟩ := h
  obtain ⟨receivers, hplayers, rfl⟩ := broadcastTurns_outbox s.outbox hturns
  exact ⟨receivers, hplayers, rfl⟩

theorem SameButPlaces.outbox (h : SameButPlaces s s') : s'.outbox = s.outbox := by
  rw [h.rest]

/-- An expulsion sends notices to players that it has moved, and then its answer. -/
private theorem commandExpulse_outbox {fuel : Nat} (h : commandExpulse fuel s pl = some s') :
    ∃ victims : List Fd, s'.outbox = s.outbox ++ victims.map (expulsionNotice pl) ++
        [(pl.id, response "expulse" none (some "ok"))] := by
  unfold commandExpulse at h
  split at h
  · cases h
    exact ⟨[], by simp [Server.createResponseToCommand, Server.send]⟩
  · rw [Option.map_eq_some_iff] at h
    obtain ⟨s₁, hturns, rfl⟩ := h
    have hnotices : ∃ victims : List Fd, s₁.outbox = s.outbox ++ victims.map (expulsionNotice pl) := by
      refine forEach_invariant (I := fun t : Server => ∃ victims : List Fd,
        t.outbox = s.outbox ++ victims.map (expulsionNotice pl)) ?_ hturns ⟨[], by simp⟩
      rintro t it t' hturn ⟨victims, hout⟩
      rw [expulseTurn, Option.map_eq_some_iff] at hturn
      obtain ⟨q, -, rfl⟩ := hturn
      split
      · exact ⟨victims, hout⟩
      · refine ⟨victims ++ [q.id], ?_⟩
        simp only [Server.createResponseToCommand, Server.send, (movePlayer_same ..).outbox, hout, List.map_append,
          List.append_assoc]
        rfl
    obtain ⟨victims, hout⟩ := hnotices
    refine ⟨victims, ?_⟩
    simp only [Server.createResponseToCommand, Server.send, hout]

/-! ### What the client makes of it -/

/-- The client takes a message for a notice, reads it, and goes through its sending loop. -/
def Understands (client : JavaClient) (advice : Advice) (msg : Json) (notice : Notice) : Prop :=
  ∃ client', (handleResponse advice msg).run client = .ok () client' ∧
    client'.notices = client.notices ++ [notice]

/-- A broadcast ends in an exception, one answer fewer is waited for, and nothing is sent. -/
private theorem handleResponse_message (client : JavaClient) (advice : Advice) (arg : String) (status : Option String) :
    (handleResponse advice (response "message" (some arg) status)).run client =
      .error () { client with pendingResponses := client.pendingResponses - 1 } := by
  cases status with
  | none => rfl
  | some status => rfl

/-- So does an expulsion. -/
private theorem handleResponse_deplacement (client : JavaClient) (advice : Advice) (status : String) :
    (handleResponse advice (response "deplacement" none (some status))).run client =
      .error () { client with pendingResponses := client.pendingResponses - 1 } := rfl

private theorem broadcast_not_understood (client : JavaClient) (advice : Advice) (text : Option String)
    (receiver : Player) (notice : Notice) :
    ¬ Understands client advice (broadcastNotice cfg s pl text receiver).2 notice := by
  rintro ⟨client', hrun, -⟩
  rw [broadcastNotice, handleResponse_message] at hrun
  cases hrun

private theorem expulsion_not_understood (client : JavaClient) (advice : Advice) (fd : Fd) (notice : Notice) :
    ¬ Understands client advice (expulsionNotice pl fd).2 notice := by
  rintro ⟨client', hrun, -⟩
  rw [expulsionNotice, handleResponse_deplacement] at hrun
  cases hrun

/-- No client understands the notice of any broadcast or expulsion: with the direction and the text that the server
put in it, or with others. -/
theorem notices_never_understood (cfg : Config) (s s' : Server) (pl : Player) :
    (∀ arg, commandBroadcast cfg s pl arg = some s' →
      ∃ receivers, (s.clients.filterMap id).mapM s.playerOf = some receivers ∧
        s'.outbox = s.outbox ++ receivers.map (broadcastNotice cfg s pl (arg.map Arg.text)) ++
          [(pl.id, response "broadcast" none (some "ok"))] ∧
        ∀ receiver ∈ receivers, ∀ client advice notice,
          ¬ Understands client advice (broadcastNotice cfg s pl (arg.map Arg.text) receiver).2 notice) ∧
    (∀ fuel, commandExpulse fuel s pl = some s' →
      ∃ victims : List Fd, s'.outbox = s.outbox ++ victims.map (expulsionNotice pl) ++
          [(pl.id, response "expulse" none (some "ok"))] ∧
        ∀ fd ∈ victims, ∀ client advice notice, ¬ Understands client advice (expulsionNotice pl fd).2 notice) := by
  constructor
  · intro arg h
    obtain ⟨receivers, hplayers, hout⟩ := commandBroadcast_outbox h
    refine ⟨receivers, hplayers, hout, ?_⟩
    intro receiver _ client advice notice
    exact broadcast_not_understood client advice _ receiver notice
  · intro fuel h
    obtain ⟨victims, hout⟩ := commandExpulse_outbox h
    refine ⟨victims, hout, ?_⟩
    intro fd _ client advice notice
    exact expulsion_not_understood client advice fd notice

/-- Two players of one team, on sockets 5 and 6. -/
def twoPlayers : Server :=
  let s := gameInit shippedConfig 10 10 ["red"] 2 fun _ _ => 0
  let s₁ := (gameRegisterPlayer shippedConfig s 1 5 "red" ⟨0, 0, 0⟩).2
  (gameRegisterPlayer shippedConfig s₁ 2 6 "red" ⟨0, 3, 1⟩).2

/-- The first of them. -/
def crier : Player := { id := 5, teamId := 0, level := 1, pos := ⟨0, 0⟩, dir := .north, dieTime := 1260 }

theorem notices_never_understood_hello :
    ∃ s', commandBroadcast shippedConfig twoPlayers crier (some ⟨9, "hello"⟩) = some s' ∧
      ∃ receivers, (twoPlayers.clients.filterMap id).mapM twoPlayers.playerOf = some receivers ∧
        s'.outbox = twoPlayers.outbox ++
          receivers.map (broadcastNotice shippedConfig twoPlayers crier (some "hello")) ++
          [(5, response "broadcast" none (some "ok"))] ∧
        ∀ receiver ∈ receivers, ∀ client advice notice, ¬ Understands client advice
          (broadcastNotice shippedConfig twoPlayers crier (some "hello") receiver).2 notice := by
  have hsome : (commandBroadcast shippedConfig twoPlayers crier (some ⟨9, "hello"⟩)).isSome := by decide +kernel
  obtain ⟨s', hs'⟩ := Option.isSome_iff_exists.1 hsome
  exact ⟨s', hs', (notices_never_understood shippedConfig twoPlayers s' crier).1 _ hs'⟩

/-- The player on socket 6 hears "hello" from direction 3, and its client, which waits for one answer, does not
understand it. -/
theorem hello_not_understood :
    ((commandBroadcast shippedConfig twoPlayers crier (some ⟨9, "hello"⟩)).any fun s' =>
      s'.outbox.contains (6, response "message" (some "3") (some "hello"))) ∧
    ¬ Understands { teamName := "red", pendingResponses := 1 } none (response "message" (some "3") (some "hello"))
      (.heard 3 "hello") := by
  refine ⟨by decide +kernel, ?_⟩
  rintro ⟨client', hrun, -⟩
  rw [handleResponse_message] at hrun
  cases hrun

end Zappy

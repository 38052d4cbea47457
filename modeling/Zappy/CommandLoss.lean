import Zappy.MachineSteps

/-!
# Commands that are lost (`m_handle_cmd`, `game_execute_command`)

A command whose name is missing or unknown is answered with an error.  One with a known name is queued for the first
client on the descriptor if its buffer has room, and forgotten otherwise: the error of the scheduler is dropped on
the way back to `m_handle_client_message`.
-/

namespace Zappy

open Run

variable {cfg : Config} {s s' : Server} {c d : Addr} {cl : Client} {fd : Fd} {msg : ClientMessage} {type : CommandType}

/-- The command of the message is at the end of the buffer of `c`, for the player of the client. -/
def Enqueued (msg : ClientMessage) (s s' : Server) (c : Addr) : Prop :=
  ∃ cl cl' ev type, s.clientHeap c = some cl ∧ s'.clientHeap c = some cl' ∧
    cl'.eventBuffer.queued = cl.eventBuffer.queued ++ [ev] ∧ msg.cmd.bind commandTypeOf = some type ∧
    ev.callback = some (.command type) ∧ ev.data = some cl.player ∧ ev.arg.map Arg.text = msg.arg

/-- An error has been sent to the descriptor. -/
def Informed (fd : Fd) (s s' : Server) : Prop :=
  ∃ report, (fd, report) ∈ s'.outbox.drop s.outbox.length ∧ report.lookup "type" = some (.str "error")

private theorem informed_error (s : Server) (fd : Fd) (text : String) :
    Informed fd s (s.createJsonResponse fd "error" text none) := by
  refine ⟨[("type", .str "error"), ("msg", .str text)], ?_, rfl⟩
  change _ ∈ (s.outbox ++ [_]).drop s.outbox.length
  rw [List.drop_left]
  exact List.mem_singleton.2 rfl

private theorem not_informed (h : s'.outbox = s.outbox) : ¬ Informed fd s s' := by
  rintro ⟨report, hmem, -⟩
  rw [h, List.drop_length] at hmem
  cases hmem

/-- A known command: the first client on the descriptor gets it, if its buffer has room. -/
theorem gameExecuteCommand_known (cfg : Config) (conn : Conn) {cmd : String} (arg : Option String)
    (hd : s.gameGetClientFromFd fd = some d) (htype : commandTypeOf cmd = some type) :
    ∃ s' copy, gameExecuteCommand cfg s conn fd cmd arg = (.success, s') ∧ copy.map Arg.text = arg ∧
      s'.outbox = s.outbox ∧ s'.clientHeap = Function.update s.clientHeap d ((s.clientHeap d).map fun cl =>
        { cl with
          eventBuffer :=
            (timeApiScheduleClientEvent s.now cl.eventBuffer (prototypeDelay cfg type) (some (.command type))
              (some cl.player) copy conn).getD cl.eventBuffer }) := by
  unfold gameExecuteCommand
  simp only [hd, htype]
  cases arg with
  | none => exact ⟨_, none, rfl, rfl, rfl, rfl⟩
  | some text => exact ⟨_, some ⟨s.nextAddr, text⟩, rfl, rfl, rfl, rfl⟩

/-- A known command is queued exactly if the client is the first one on the descriptor and its buffer has room. -/
private theorem gameExecuteCommand_enqueued (cfg : Config) (conn : Conn) (hwf : BuffersWF s)
    (hcl : s.clientHeap c = some cl) (hd : s.gameGetClientFromFd fd = some d) {cmd : String} (hcmd : msg.cmd = some cmd)
    (htype : commandTypeOf cmd = some type) :
    Enqueued msg s (gameExecuteCommand cfg s conn fd cmd msg.arg).2 c ↔ d = c ∧ cl.eventBuffer.count < maxEvents := by
  obtain ⟨s', copy, hexec, hcopy, -, hheap⟩ := gameExecuteCommand_known cfg conn msg.arg hd htype
  have hsame : ∀ {cl' : Client} {ev : Event}, cl'.eventBuffer = cl.eventBuffer →
      cl'.eventBuffer.queued = cl.eventBuffer.queued ++ [ev] → False := by
    intro cl' ev hbuffer hqueued
    rw [hbuffer] at hqueued
    have hlength := congrArg List.length hqueued
    rw [List.length_append, List.length_singleton] at hlength
    omega
  rw [hexec]
  constructor
  · rintro ⟨cl₀, cl', ev, -, hcl₀, hcl', hqueued, -⟩
    obtain rfl := Option.some.inj (hcl₀.symm.trans hcl)
    by_cases hdc : d = c
    · subst hdc
      refine ⟨rfl, ?_⟩
      rw [hheap, Function.update_self, hcl, Option.map_some, Option.some.injEq] at hcl'
      by_contra hfull
      refine hsame ?_ hqueued
      rw [← hcl', schedule_eq_none_iff.2 (by omega)]
      rfl
    · rw [hheap, Function.update_of_ne (Ne.symm hdc), hcl, Option.some.injEq] at hcl'
      exact (hsame (by rw [← hcl']) hqueued).elim
  · rintro ⟨rfl, hroom⟩
    rw [hcl, Option.map_some] at hheap
    cases hb : timeApiScheduleClientEvent s.now cl.eventBuffer (prototypeDelay cfg type) (some (.command type))
        (some cl.player) copy conn with
    | none =>
      have hfull := schedule_eq_none_iff.1 hb
      omega
    | some b =>
      rw [hb, Option.getD_some] at hheap
      refine ⟨cl, _, _, type, hcl, by rw [hheap, Function.update_self],
        (schedule_spec (hwf.client d cl hcl) hb).2.2.2, ?_, rfl, rfl, hcopy⟩
      rw [hcmd, Option.bind_some, htype]

/-- What becomes of a message of type `cmd` from the connection of a live client. -/
private theorem handleClientMessage_cmd (cfg : Config) (hwf : BuffersWF s) (hc : LiveClient s c cl) (draw : StartDraw)
    (htype : msg.type = some "cmd") :
    ∃ ret s', handleClientMessage cfg s cl.conn cl.socketFd draw (some msg) = some (ret, s') ∧
      (Enqueued msg s s' c ∨ Informed cl.socketFd s s' ↔ msg.cmd.bind commandTypeOf = none ∨
        s.gameGetClientFromFd cl.socketFd = some c ∧ cl.eventBuffer.count < maxEvents) := by
  have hheld : FdHeld s cl.socketFd := ⟨c, cl, hc, rfl⟩
  obtain ⟨d, hd⟩ := Option.isSome_iff_exists.1 (fdHeld_iff.1 hheld)
  have herror : ∀ {s₁}, handleCmd cfg s cl.conn cl.socketFd msg = (.error, s₁) →
      handleClientMessage cfg s cl.conn cl.socketFd draw (some msg) =
        some (.error, s₁.createJsonResponse cl.socketFd "error" "Failed to handle message" none) := by
    intro s₁ h
    unfold handleClientMessage
    dsimp only
    rw [htype, h]
    rfl
  have hsuccess : ∀ {s₁}, handleCmd cfg s cl.conn cl.socketFd msg = (.success, s₁) →
      handleClientMessage cfg s cl.conn cl.socketFd draw (some msg) = some (.success, s₁) := by
    intro s₁ h
    unfold handleClientMessage
    dsimp only
    rw [htype, h]
    rfl
  cases hcmd : msg.cmd with
  | none =>
    have hmissing : handleCmd cfg s cl.conn cl.socketFd msg = (.error, s) := by rw [handleCmd, hcmd]
    exact ⟨_, _, herror hmissing, iff_of_true (Or.inr (informed_error _ _ _)) (Or.inl rfl)⟩
  | some cmd =>
    have hhandle : handleCmd cfg s cl.conn cl.socketFd msg =
        gameExecuteCommand cfg s cl.conn cl.socketFd cmd msg.arg := by rw [handleCmd, hcmd]
    cases hknown : commandTypeOf cmd with
    | none =>
      have hexec : gameExecuteCommand cfg s cl.conn cl.socketFd cmd msg.arg = (.error, s) := by
        unfold gameExecuteCommand
        simp only [hd, hknown]
      exact ⟨_, _, herror (hhandle.trans hexec), iff_of_true (Or.inr (informed_error _ _ _)) (Or.inl hknown)⟩
    | some type =>
      obtain ⟨s', copy, hexec, -, hout, -⟩ := gameExecuteCommand_known cfg cl.conn msg.arg hd hknown
      have hqueued := gameExecuteCommand_enqueued cfg cl.conn hwf hc.heap hd hcmd hknown
      rw [hexec] at hqueued
      refine ⟨_, _, hsuccess (hhandle.trans hexec), ?_⟩
      rw [or_iff_left (not_informed hout), hqueued, Option.bind_some, hknown, hd, Option.some.injEq]
      simp

/-- In every state that a run of the machine reaches, a message of type `cmd` from the connection of a live client
leaves the command at the end of the client's buffer or is answered by an error exactly if its name is missing or
unknown, or the client is the first one on the descriptor and has fewer than ten events queued. -/
theorem command_kept_iff (cfg : Config) (width height : Nat) (teams : List String) (nbClients : Nat)
    (counts : Nat → InventoryType → Nat) (as : List MachineAction) {m : Machine}
    (h : run (machineStep cfg) (machineInit cfg width height teams nbClients counts) as = some m) {c : Addr}
    {cl : Client} (hc : LiveClient m.server c cl) (draw : StartDraw) {msg : ClientMessage}
    (htype : msg.type = some "cmd") :
    ∃ ret s', handleClientMessage cfg m.server cl.conn cl.socketFd draw (some msg) = some (ret, s') ∧
      (Enqueued msg m.server s' c ∨ Informed cl.socketFd m.server s' ↔
        msg.cmd.bind commandTypeOf = none ∨
          m.server.gameGetClientFromFd cl.socketFd = some c ∧ cl.eventBuffer.count < maxEvents) :=
  handleClientMessage_cmd cfg (registered_of_machine_run h).1 hc draw htype

/-- A player logs in. -/
def oneLogin : List MachineAction :=
  scanPass [3] [.accept 4] 0 ++ handshakePass ++ scanPass [4] [.receive loginMessage ⟨0, 0, 0⟩] 0

def look : ClientMessage := { type := "cmd", cmd := "voir" }

/-- Its first command is queued. -/
theorem command_kept_iff_first : ∃ (m : Machine) (c : Addr) (cl : Client) (ret : Ret) (s' : Server),
    run (machineStep shippedConfig) shippedMachine oneLogin = some m ∧ LiveClient m.server c cl ∧
    handleClientMessage shippedConfig m.server cl.conn cl.socketFd ⟨0, 0, 0⟩ (some look) = some (ret, s') ∧
    (Enqueued look m.server s' c ∨ Informed cl.socketFd m.server s') := by
  have hrun : ((run (machineStep shippedConfig) shippedMachine oneLogin).bind fun m =>
      (m.server.clientHeap 0).map fun cl =>
        (m.server.live, m.server.gameGetClientFromFd cl.socketFd, cl.eventBuffer.count)) =
      some ([0], some 0, 0) := by decide +kernel
  obtain ⟨m, hm, hmap⟩ := Option.bind_eq_some_iff.1 hrun
  obtain ⟨cl, hcl, hfacts⟩ := Option.map_eq_some_iff.1 hmap
  simp only [Prod.mk.injEq] at hfacts
  obtain ⟨hlive, hfound, hcount⟩ := hfacts
  have hc : LiveClient m.server 0 cl := ⟨by rw [hlive]; exact List.mem_singleton.2 rfl, hcl⟩
  have htype : look.type = some "cmd" := rfl
  obtain ⟨ret, s', hmsg, hiff⟩ := command_kept_iff shippedConfig 1 1 _ _ _ _ hm hc ⟨0, 0, 0⟩ htype
  exact ⟨m, 0, cl, ret, s', hm, hc, hmsg, hiff.2 (Or.inr ⟨hfound, by rw [hcount]; decide⟩)⟩

/-- After ten commands the eleventh is neither queued nor answered. -/
theorem eleventh_command_lost : ∃ (m : Machine) (c : Addr) (cl : Client) (ret : Ret) (s' : Server),
    run (machineStep shippedConfig) shippedMachine
      (oneLogin ++ (List.replicate 10 (scanPass [4] [.receive (.text (some look)) ⟨0, 0, 0⟩] 0)).flatten) = some m ∧
    LiveClient m.server c cl ∧
    handleClientMessage shippedConfig m.server cl.conn cl.socketFd ⟨0, 0, 0⟩ (some look) = some (ret, s') ∧
    ¬ Enqueued look m.server s' c ∧ ¬ Informed cl.socketFd m.server s' := by
  have hrun : ((run (machineStep shippedConfig) shippedMachine
      (oneLogin ++ (List.replicate 10 (scanPass [4] [.receive (.text (some look)) ⟨0, 0, 0⟩] 0)).flatten)).bind
        fun m => (m.server.clientHeap 0).map fun cl => (m.server.live, cl.eventBuffer.count)) = some ([0], 10) := by
    decide +kernel
  obtain ⟨m, hm, hmap⟩ := Option.bind_eq_some_iff.1 hrun
  obtain ⟨cl, hcl, hfacts⟩ := Option.map_eq_some_iff.1 hmap
  simp only [Prod.mk.injEq] at hfacts
  obtain ⟨hlive, hcount⟩ := hfacts
  have hc : LiveClient m.server 0 cl := ⟨by rw [hlive]; exact List.mem_singleton.2 rfl, hcl⟩
  have htype : look.type = some "cmd" := rfl
  obtain ⟨ret, s', hmsg, hiff⟩ :=
    handleClientMessage_cmd shippedConfig (registered_of_machine_run hm).1 hc ⟨0, 0, 0⟩ htype
  have hnot : ¬ (Enqueued look m.server s' 0 ∨ Informed cl.socketFd m.server s') := by
    rw [hiff]
    rintro (hunknown | ⟨-, hroom⟩)
    · exact absurd hunknown (by decide)
    · rw [hcount] at hroom
      exact absurd hroom (by decide)
  exact ⟨m, 0, cl, ret, s', hm, hc, hmsg, fun henq => hnot (Or.inl henq), fun hinf => hnot (Or.inr hinf)⟩

end Zappy

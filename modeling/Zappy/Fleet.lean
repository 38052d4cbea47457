import Zappy.Lossless
import Zappy.Peace

/-!
# The server and its own clients

The machine, and a Java client with its AI on every connection.  Seen from one connection this is the machine and one
client (`Fleet.duplex`).  The clients keep the rules that the server does not enforce: each logs in once at most, and
none sends a command but the six of the AI.  So the counters of all clients are right as long as their sessions are
open, nobody rises, and no notice is ever written.
-/

namespace Zappy

open Run Stateful Slots

variable {cfg : Config} {K : Conn} {width height : Nat}

/-! ### The system -/

/-- The client of a connection: how many of its texts the machine has received, and how many messages it has read. -/
structure ClientLink where
  agent : Agent
  taken : Nat := 0
  read : Nat := 0

structure Fleet where
  machine : Machine
  links : Conn → ClientLink

/-- The steps of the machine and of the clients; a client that asks its AI draws a random move. -/
inductive FleetAction where
  | server (act : MachineAction)
  /-- `onMessage`. -/
  | message (K : Conn) (draw : Fin 3)
  /-- `onClose`. -/
  | close (K : Conn)
  /-- `onError`. -/
  | error (K : Conn)

/-- The text that a step receives, and the connection that it comes from. -/
def Machine.speech (m : Machine) : MachineAction → Option (Conn × Option ClientMessage)
  | .receive (.text text) _ =>
    match m.phase with
    | .scan (fd :: _) => (m.heard fd).map fun K => (K, text)
    | _ => none
  | _ => none

namespace Fleet

variable (F : Fleet)

/-- The next message that the client of `K` reads. -/
def next (K : Conn) : Option Json := (F.machine.wireTo K)[(F.links K).read]?

/-- The fleet with another client on `K`. -/
def setLink (K : Conn) (link : ClientLink) : Fleet := { F with links := Function.update F.links K link }

/-- The client of `K` after `f`. -/
def modClient (K : Conn) (f : JavaClient → JavaClient) : Fleet :=
  F.setLink K { F.links K with agent := { (F.links K).agent with client := f (F.links K).agent.client } }

/-- The machine and the client of `K`. -/
def duplex (K : Conn) : Duplex where
  machine := F.machine
  client := (F.links K).agent.client
  taken := (F.links K).taken
  read := (F.links K).read

/-- What the AI on `K` answers when the client reads its next message. -/
def advice (K : Conn) (draw : Fin 3) : Advice :=
  (F.next K).bind fun msg => ((F.links K).agent.decide draw msg).2

/-- What a step is to the machine and the client of `K`. -/
def sees (K : Conn) : FleetAction → Option DuplexAction
  | .server act => some (.server act)
  | .message k draw => if k = K then some (.message (F.advice K draw)) else none
  | .close k => if k = K then some .close else none
  | .error k => if k = K then some .error else none

end Fleet

/-- One step of the machine or of a client.  The machine receives the texts of a client in order. -/
def fleetStep (cfg : Config) (F : Fleet) : FleetAction → Option Fleet
  | .server act =>
    match F.machine.speech act with
    | none => (machineStep cfg F.machine act).map fun m => { F with machine := m }
    | some (K, text) =>
      if text.isSome ∧ (F.links K).agent.client.sent[(F.links K).taken]? = text then
        (machineStep cfg F.machine act).map fun m =>
          { F with machine := m }.setLink K { F.links K with taken := (F.links K).taken + 1 }
      else none
  | .message K draw =>
    if (F.links K).agent.client.sessionOpen then
      (F.next K).map fun msg => F.setLink K { F.links K with
        agent := (F.links K).agent.handleResponse draw msg
        read := (F.links K).read + 1 }
    else none
  | .close K => some (F.modClient K fun c => { c with dead := true, sessionOpen := false })
  | .error K => some (F.modClient K fun c => { c with dead := true })

variable {F F' : Fleet} {act : FleetAction}

private theorem heardText_eq (m : Machine) (K : Conn) (act : MachineAction) :
    m.heardText K act = (m.speech act).bind fun speech => if speech.1 = K then some speech.2 else none := by
  cases act with
  | receive input draw =>
    cases input with
    | closed => rfl
    | text text =>
      simp only [Machine.heardText, Machine.speech]
      cases m.phase with
      | scan todo =>
        cases todo with
        | nil => rfl
        | cons fd rest =>
          dsimp only
          cases m.heard fd with
          | none => rfl
          | some k => simp
      | _ => rfl
  | _ => rfl

@[simp] theorem setLink_links (link : ClientLink) : (F.setLink K link).links K = link := Function.update_self ..

theorem setLink_links_ne {k : Conn} {link : ClientLink} (h : K ≠ k) : (F.setLink k link).links K = F.links K :=
  Function.update_of_ne h ..

theorem duplex_setLink_ne {k : Conn} {link : ClientLink} (h : K ≠ k) : (F.setLink k link).duplex K = F.duplex K := by
  simp only [Fleet.duplex, setLink_links_ne h]
  rfl

theorem duplex_setLink (link : ClientLink) : (F.setLink K link).duplex K =
    { machine := F.machine, client := link.agent.client, taken := link.taken, read := link.read } := by
  simp only [Fleet.duplex, setLink_links]
  rfl

/-- A step of the machine is one of the machine and the client of `K`. -/
theorem fleetStep_server {a : MachineAction} (h : fleetStep cfg F (.server a) = some F') (K : Conn) :
    duplexStep cfg K (F.duplex K) (.server a) = some (F'.duplex K) := by
  have hheard := heardText_eq F.machine K a
  simp only [fleetStep] at h
  split at h
  · rename_i hspeech
    obtain ⟨m, hm, rfl⟩ := Option.map_eq_some_iff.1 h
    rw [hspeech, Option.bind_none] at hheard
    simp only [duplexStep, Fleet.duplex, hheard, hm, Option.map_some]
  · rename_i k text hspeech
    split at h
    · rename_i hnext
      obtain ⟨m, hm, rfl⟩ := Option.map_eq_some_iff.1 h
      rw [hspeech, Option.bind_some] at hheard
      by_cases hk : k = K
      · subst hk
        rw [if_pos rfl] at hheard
        rw [duplex_setLink]
        simp only [duplexStep, Fleet.duplex, hheard, hm, Option.map_some]
        rw [if_pos hnext]
      · rw [if_neg hk] at hheard
        rw [duplex_setLink_ne (Ne.symm hk)]
        simp only [duplexStep, Fleet.duplex, hheard, hm, Option.map_some]
    · cases h

/-- A step of the fleet is a step of the machine and the client of `K`, or one of another client. -/
theorem fleetStep_duplex (h : fleetStep cfg F act = some F') (K : Conn) :
    (F.sees K act = none ∧ F'.duplex K = F.duplex K) ∨
      ∃ a, F.sees K act = some a ∧ duplexStep cfg K (F.duplex K) a = some (F'.duplex K) := by
  cases act with
  | server a => exact Or.inr ⟨.server a, rfl, fleetStep_server h K⟩
  | message k draw =>
    simp only [fleetStep] at h
    split at h
    · rename_i hopen
      obtain ⟨msg, hmsg, rfl⟩ := Option.map_eq_some_iff.1 h
      by_cases hk : k = K
      · subst hk
        refine Or.inr ⟨_, if_pos rfl, ?_⟩
        have hread : (F.machine.wireTo k)[(F.links k).read]? = some msg := hmsg
        rw [duplex_setLink]
        simp only [duplexStep, Fleet.duplex, hopen, if_true, hread, Option.map_some, Fleet.advice, hmsg,
          Option.bind_some]
        rfl
      · exact Or.inl ⟨if_neg hk, duplex_setLink_ne (Ne.symm hk)⟩
    · cases h
  | close k =>
    cases h
    by_cases hk : k = K
    · subst hk
      exact Or.inr ⟨_, if_pos rfl, by rw [Fleet.modClient, duplex_setLink]; rfl⟩
    · exact Or.inl ⟨if_neg hk, duplex_setLink_ne (Ne.symm hk)⟩
  | error k =>
    cases h
    by_cases hk : k = K
    · subst hk
      exact Or.inr ⟨_, if_pos rfl, by rw [Fleet.modClient, duplex_setLink]; rfl⟩
    · exact Or.inl ⟨if_neg hk, duplex_setLink_ne (Ne.symm hk)⟩

/-! ### One client -/

/-- A text that is no command, or one of the six commands. -/
def ClientMessage.Sober (text : ClientMessage) : Prop :=
  text.type = some "cmd" → ∃ name ∈ soberNames, text.cmd = some name

/-- A client that has sent sober texts, and queues commands of the AI. -/
def JavaClient.Sober (c : JavaClient) : Prop :=
  c.Speech (fun sent => ∀ text ∈ sent, text.Sober) fun cmd => cmd.type ∈ AI.commands

/-- The machine and the client, if the client counts right. -/
def Duplex.recounted (K : Conn) (d : Duplex) : Duplex :=
  { d with client := { d.client with pendingResponses := d.outstanding K } }

/-- What holds of the machine and one client of the fleet.  A client whose session is closed may count wrong. -/
structure Linked (K : Conn) (d : Duplex) : Prop where
  duplex : DuplexInv K (d.recounted K)
  counter : d.client.sessionOpen = true → d.client.pendingResponses = d.outstanding K
  lossless : Lossless K d
  sober : d.client.Sober
  /-- Nobody plays for the connection before its login was received. -/
  loggedIn : ∀ c cl, LiveClient d.machine.server c cl → d.machine.session cl.socketFd = some K →
    1 ≤ loginsIn d.received

variable {d d' : Duplex} {a : MachineAction} {advice : Advice} {msg : Json}

private theorem recounted_eq (h : d.client.pendingResponses = d.outstanding K) : d.recounted K = d := by
  unfold Duplex.recounted
  rw [← h]

theorem Linked.open (h : Linked K d) (hopen : d.client.sessionOpen = true) : DuplexInv K d := by
  have hduplex := h.duplex
  rwa [recounted_eq (h.counter hopen)] at hduplex

/-- The machine does not see the counter. -/
private theorem duplexStep_recounted (hread : d.read ≤ (d.machine.wireTo K).length)
    (h : duplexStep cfg K d (.server a) = some d') :
    duplexStep cfg K (d.recounted K) (.server a) = some (d'.recounted K) := by
  have hout : d'.outstanding K = d.outstanding K := by
    obtain ⟨m, n, hm, rfl, -, -⟩ := duplexStep_server h
    unfold Duplex.outstanding
    rw [processed_append hread (machineStep_wire hm)]
  unfold Duplex.recounted
  rw [hout]
  simp only [duplexStep] at h ⊢
  split at h
  · obtain ⟨m, hm, rfl⟩ := Option.map_eq_some_iff.1 h
    rw [hm]
    rfl
  · split at h
    · rename_i hnext
      obtain ⟨m, hm, rfl⟩ := Option.map_eq_some_iff.1 h
      rw [if_pos hnext, hm]
      rfl
    · cases h

theorem Linked.server (h : Linked K d) (hG : SessionGuard d.machine a)
    (hstep : duplexStep cfg K d (.server a) = some d') : Linked K d' := by
  have hread : d.read ≤ (d.machine.wireTo K).length := h.duplex.read
  have hstep' := duplexStep_recounted hread hstep
  have hduplex := h.duplex.server hG hstep'
  have hlossless : Lossless K (d.recounted K) := ⟨h.lossless.known, h.lossless.pending, h.lossless.answers⟩
  have hafter := hlossless.server h.duplex hduplex hstep'
  obtain ⟨m, n, hm, rfl, -, hreceived⟩ := duplexStep_server hstep
  constructor
  case duplex => exact hduplex
  case counter =>
    intro hopen
    unfold Duplex.outstanding
    rw [processed_append hread (machineStep_wire hm)]
    exact h.counter hopen
  case lossless => exact ⟨hafter.known, hafter.pending, hafter.answers⟩
  case sober => exact h.sober
  case loggedIn =>
    intro c cl hc hK
    have hlogins : loginsIn (d.client.sent.take n) = loginsIn d.received + loginsIn (d.machine.hears K a) := by
      rw [hreceived, loginsIn_append]
    obtain ⟨names, rest, hprogress⟩ := h.duplex.accounts.progress hm
    change 1 ≤ loginsIn (d.client.sent.take n)
    rcases hprogress.clients c cl hc hK with ⟨-, hnew⟩ | ⟨cl₀, taken, hc₀, hK₀, -⟩
    · have hnew : loginsIn (d.machine.hears K a) = 1 := hnew
      omega
    · have hold := h.loggedIn c cl₀ hc₀ hK₀
      omega

/-! ### Reading -/

/-- A farewell or an error closes the session, and nothing is sent. -/
theorem handleResponse_closes (advice : Advice) (c : JavaClient) (hkind : msg.kind = .farewell ∨ msg.kind = .error) :
    (finalState (handleResponse advice msg) c).sessionOpen = false ∧
      (finalState (handleResponse advice msg) c).sent = c.sent ∧
      (c.commandQueue = [] → (finalState (handleResponse advice msg) c).commandQueue = []) := by
  have hclosed : ∃ n, (handleMsg advice msg).run c = .ok ⟨⟩ { c with pendingResponses := n, sessionOpen := false } := by
    have hread := handleMsg_reading advice msg
    rcases hkind with hkind | hkind
    · rw [hkind] at hread
      cases hread with
      | farewell hcmd harg hmsg =>
        rw [hmsg]
        exact ⟨_, playerHandleResponse_die hcmd harg⟩
    · rw [hkind] at hread
      cases hread with
      | error harg hmsg =>
        refine ⟨c.pendingResponses, ?_⟩
        rw [hmsg, handleErrorMsg, Json.getOr, harg]
        rfl
  obtain ⟨n, hrun⟩ := hclosed
  rw [handleResponse_ok hrun]
  have hbook := sendLoop_book (c := { c with pendingResponses := n, sessionOpen := false }) c.commandQueue rfl
  simp only [JavaClient.book, Bool.false_eq_true, if_false, Prod.mk.injEq] at hbook
  refine ⟨hbook.1, hbook.2.2.2, fun hnone => ?_⟩
  dsimp only
  rw [hnone]
  rfl

/-- What was received stays so when the client sends more. -/
private theorem received_client (htaken : d.taken ≤ d.client.sent.length) {c : JavaClient} {n : Nat}
    (hsent : d.client.sent <+: c.sent) : Duplex.received { d with client := c, read := n } = d.received := by
  obtain ⟨more, hmore⟩ := hsent
  unfold Duplex.received
  dsimp only
  rw [← hmore, List.take_append_of_le_length htaken]

private theorem sober_command {cmd : Command} (h : cmd.type ∈ AI.commands) : (createCommandJsonMessage cmd).Sober :=
  fun _ => ⟨cmd.type.getName, List.mem_map_of_mem h, rfl⟩

private theorem sober_login (name : String) : (createLoginJsonMessage name).Sober := fun h =>
  absurd h (by decide : some "login" ≠ some "cmd")

/-- The client stays sober with a sober AI. -/
private theorem handleResponse_sober (hadvice : ∀ cmds, advice = some cmds → ∀ cmd ∈ cmds, cmd.type ∈ AI.commands) :
    Keeps JavaClient.Sober (handleResponse advice msg) := by
  have hmore : ∀ {sent : List ClientMessage} {text : ClientMessage}, text.Sober → (∀ text ∈ sent, text.Sober) →
      ∀ text' ∈ sent ++ [text], text'.Sober := by
    intro sent text hsober hall text' htext'
    rcases List.mem_append.1 htext' with htext' | htext'
    · exact hall text' htext'
    · rwa [List.mem_singleton.1 htext']
  exact handleResponse_speech hadvice (by decide) (fun sent name h => hmore (sober_login name) h)
    fun sent cmd hcmd h => hmore (sober_command hcmd) h

theorem Linked.message (h : Linked K d) (hplain : ∀ msg ∈ d.machine.wireTo K, msg.kind ≠ .notice)
    (hadvice : ∀ cmds, advice = some cmds → ∀ cmd ∈ cmds, cmd.type ∈ AI.commands)
    (hstep : duplexStep cfg K d (.message advice) = some d') : Linked K d' := by
  obtain ⟨msg, hopen, hmsg, rfl⟩ := duplexStep_message hstep
  have hI := h.open hopen
  have hearlier := (handleResponse_known advice msg d.client h.lossless.known).1
  have hreceived : Duplex.received { d with
      client := finalState (handleResponse advice msg) d.client
      read := d.read + 1 } = d.received := received_client hI.taken hearlier
  have hlossless := h.lossless.message hI hstep
  have hsober : (finalState (handleResponse advice msg) d.client).Sober := handleResponse_sober hadvice _ h.sober
  have hlogged : ∀ c cl, LiveClient d.machine.server c cl → d.machine.session cl.socketFd = some K →
      1 ≤ loginsIn (Duplex.received { d with
        client := finalState (handleResponse advice msg) d.client
        read := d.read + 1 }) := by
    rw [hreceived]
    exact h.loggedIn
  by_cases hcount : miscounts d.client msg = false
  · -- the counter stays right
    have hI' : DuplexInv K { d with
        client := finalState (handleResponse advice msg) d.client
        read := d.read + 1 } := hI.counted hopen hmsg hcount
    refine ⟨?_, fun _ => hI'.counter, hlossless, hsober, hlogged⟩
    rw [recounted_eq hI'.counter]
    exact hI'
  · -- the session is closed, and nothing is sent any more
    have hkind : msg.kind = .farewell ∨ msg.kind = .error := by
      have hnotice := hplain msg (List.mem_of_getElem? hmsg)
      cases hkind : msg.kind with
      | notice => exact absurd hkind hnotice
      | farewell => exact Or.inl rfl
      | error => exact Or.inr rfl
      | _ => exact absurd (by simp [miscounts, hkind]) hcount
    obtain ⟨hclosed, hsent, hqueue⟩ := handleResponse_closes advice d.client hkind
    have hanswer : msg.kind ≠ .answer := by
      rcases hkind with hkind | hkind <;> rw [hkind] <;> exact Kind.noConfusion
    have hwelcome : msg.kind ≠ .welcome := by
      rcases hkind with hkind | hkind <;> rw [hkind] <;> exact Kind.noConfusion
    have hout : Duplex.outstanding { d with
        client := finalState (handleResponse advice msg) d.client
        read := d.read + 1 } K = d.client.pendingResponses := by
      rw [h.counter hopen]
      unfold Duplex.outstanding
      rw [processed_next hmsg, countKind_next, if_neg hanswer]
      dsimp only
      rw [hsent, Nat.add_zero]
    refine ⟨?_, fun hopen' => ?_, hlossless, hsober, hlogged⟩
    · unfold Duplex.recounted
      rw [hout]
      refine hI.unchanged hmsg hanswer hsent rfl fun hnone => ?_
      rw [countKind_next, if_neg hwelcome] at hnone
      obtain ⟨hnothing, hcommands⟩ := hI.fresh hnone
      exact ⟨hqueue hnothing, by dsimp only; rw [hsent]; exact hcommands⟩
    · rw [hclosed] at hopen'
      cases hopen'

/-! ### All clients -/

/-- What holds of the fleet. -/
structure Fleet.Inv (width height : Nat) (F : Fleet) : Prop where
  links : ∀ K, Linked K (F.duplex K)
  peace : F.machine.Peace width height

theorem Fleet.Inv.sessions (h : F.Inv width height) : F.machine.Sessions := (h.links 0).duplex.accounts.sessions

/-- A client logs in once at most: it sends its login when it is greeted. -/
theorem Linked.loginsIn_le (h : Linked K d) : loginsIn d.client.sent ≤ 1 := by
  have hgreeted : countKind .bienvenue (d.processed K) ≤ countKind .bienvenue (d.machine.wireTo K) :=
    (List.take_sublist _ _).countP_le
  have hlogins : loginsIn d.client.sent ≤ countKind .bienvenue (d.processed K) := h.duplex.logins
  have hone : countKind .bienvenue (d.machine.wireTo K) ≤ 1 := h.duplex.accounts.bienvenue
  omega

/-- Nobody plays for a connection whose login comes in. -/
private theorem Fleet.Inv.loginOnce (h : F.Inv width height) {a : MachineAction}
    (hstep : fleetStep cfg F (.server a) = some F') : F.machine.LoginOnce a := by
  cases a with
  | receive input draw =>
    cases input with
    | closed => trivial
    | text text =>
      cases text with
      | none => trivial
      | some msg =>
        rintro fd rest teamName hphase hheard hjoin - ⟨c, cl, hc, hfd⟩
        obtain ⟨K, hK⟩ := Option.isSome_iff_exists.1 hheard
        have hlink := h.links K
        -- the text is the second login of the client
        have hears : (F.duplex K).machine.hears K (.receive (.text (some msg)) draw) = [msg] := by
          simp [Machine.hears, Machine.heardText, Fleet.duplex, hphase, hK]
        obtain ⟨m, n, hm, hd, -, hreceived⟩ := duplexStep_server (fleetStep_server hstep K)
        have htype : msg.type = some "login" := by
          unfold ClientMessage.joins at hjoin
          split at hjoin
          · rename_i hlogin
            exact hlogin.1
          · cases hjoin
        have hone : loginsIn [msg] = 1 := by simp [loginsIn, htype]
        have hsent : loginsIn ((F.duplex K).client.sent.take n) ≤ loginsIn (F.duplex K).client.sent :=
          (List.take_sublist _ _).countP_le
        rw [hreceived, hears, loginsIn_append, hone] at hsent
        have hfirst := hlink.loggedIn c cl hc (by rw [hfd]; exact (Machine.heard_some hK).2)
        have hle := hlink.loginsIn_le
        omega
  | _ => trivial

/-- A player that may act is attached: a client that is about to leave has a dead player. -/
theorem Machine.Sessions.attached {m : Machine} (h : m.Sessions) {i : Nat} {c : Addr} {cl : Client} {pl : Player}
    (hat : AtSlot m.server i c cl pl) (halive : m.server.now < pl.dieTime) : Attached m cl := by
  rcases h.status c cl ⟨mem_of_getElem? hat.slot, hat.client⟩ with hatt | hleave
  · exact hatt
  · obtain ⟨inv, hvitals, -⟩ := hleave.doomed
    rw [Server.vitalsOf, hat.player, Option.map_some, Option.some.injEq, Prod.mk.injEq] at hvitals
    omega

/-- What a player that may act is owed was asked for by its client. -/
private theorem Fleet.Inv.owesSober (h : F.Inv width height) (a : MachineAction) : F.machine.OwesSober a := by
  intro chance i _ _ c cl pl hat halive name hname
  have hc : LiveClient F.machine.server c cl := ⟨mem_of_getElem? hat.slot, hat.client⟩
  have hatt : Attached F.machine cl := h.sessions.attached hat (by simpa [playerIsAlive] using halive)
  have hlink := h.links cl.conn
  have hall : answered (F.machine.wireTo cl.conn) ++ cl.eventBuffer.owed = commandNames (F.duplex cl.conn).received :=
    hlink.lossless.pending c cl hc hatt.session
  have hmem : name ∈ commandNames (F.duplex cl.conn).received := by
    rw [← hall]
    exact List.mem_append_right _ hname
  obtain ⟨text, htext, hnamed⟩ := List.mem_filterMap.1 hmem
  split at hnamed
  · rename_i htype
    obtain ⟨sober, hsober, hcmd⟩ := hlink.sober.1 text (List.mem_of_mem_take htext) htype
    obtain rfl : sober = name := Option.some.inj (hcmd.symm.trans hnamed)
    exact hsober
  · cases hnamed

/-- What a step of the fleet guards against: `accept` returns no descriptor on which a handshake is pending. -/
def FleetGuard (F : Fleet) : FleetAction → Prop
  | .server a => AcceptIdle F.machine a
  | _ => True

private theorem Fleet.Inv.guard (h : F.Inv width height) {a : MachineAction} (hG : FleetGuard F (.server a))
    (hstep : fleetStep cfg F (.server a) = some F') : SessionGuard F.machine a := ⟨h.loginOnce hstep, hG⟩

private theorem fleetStep_machine (h : fleetStep cfg F act = some F') :
    F'.machine = F.machine ∨ ∃ a, act = .server a ∧ machineStep cfg F.machine a = some F'.machine := by
  cases act with
  | server a =>
    obtain ⟨m, n, hm, hd, -⟩ := duplexStep_server (fleetStep_server h 0)
    have hmachine : F'.machine = m := congrArg Duplex.machine hd
    exact Or.inr ⟨a, rfl, hmachine ▸ hm⟩
  | message K draw =>
    simp only [fleetStep] at h
    split at h
    · obtain ⟨msg, -, rfl⟩ := Option.map_eq_some_iff.1 h
      exact Or.inl rfl
    · cases h
  | close K =>
    cases h
    exact Or.inl rfl
  | error K =>
    cases h
    exact Or.inl rfl

theorem mem_wireTo {m : Machine} (h : msg ∈ m.wireTo K) : (K, msg) ∈ m.wire := by
  obtain ⟨e, he, hmsg⟩ := List.mem_filterMap.1 h
  split at hmsg
  · rename_i hK
    cases hmsg
    rw [← hK]
    exact he
  · cases hmsg

theorem Fleet.Inv.step (hw : 0 < width) (hh : 0 < height) (h : F.Inv width height) (hG : FleetGuard F act)
    (hstep : fleetStep cfg F act = some F') : F'.Inv width height := by
  constructor
  case links =>
    intro K
    rcases fleetStep_duplex hstep K with ⟨-, hsame⟩ | ⟨a, hsees, ha⟩
    · rw [hsame]
      exact h.links K
    · cases act with
      | server act =>
        cases hsees
        exact (h.links K).server (h.guard hG hstep) ha
      | message k draw =>
        simp only [Fleet.sees] at hsees
        split at hsees
        · cases hsees
          refine (h.links K).message (fun msg hmsg => (h.peace.plain _ (mem_wireTo hmsg)).kind) ?_ ha
          intro cmds hcmds
          obtain ⟨msg, -, hdecide⟩ := Option.bind_eq_some_iff.1 hcmds
          exact (Agent.decide_sober hdecide).types
        · cases hsees
      | close k =>
        simp only [Fleet.sees] at hsees
        split at hsees
        · cases hsees
          have hd := Option.some.inj ha
          rw [← hd]
          exact ⟨{ (h.links K).duplex with }, fun hopen => (by cases hopen), { (h.links K).lossless with },
            (h.links K).sober, (h.links K).loggedIn⟩
        · cases hsees
      | error k =>
        simp only [Fleet.sees] at hsees
        split at hsees
        · cases hsees
          have hd := Option.some.inj ha
          rw [← hd]
          exact ⟨{ (h.links K).duplex with }, (h.links K).counter, { (h.links K).lossless with },
            (h.links K).sober, (h.links K).loggedIn⟩
        · cases hsees
  case peace =>
    rcases fleetStep_machine hstep with hsame | ⟨a, -, ha⟩
    · rw [hsame]
      exact h.peace
    · exact h.peace.step hw hh h.sessions (h.owesSober a) ha

/-- The machine and the clients before they are connected. -/
def fleetInit (cfg : Config) (width height : Nat) (teams : List String) (nbClients : Nat)
    (counts : Nat → InventoryType → Nat) (teamNames : Conn → String) : Fleet where
  machine := machineInit cfg width height teams nbClients counts
  links := fun K => { agent := { client := { teamName := teamNames K } } }

theorem fleetInv_init (teams : List String) (nbClients : Nat) (counts : Nat → InventoryType → Nat)
    (teamNames : Conn → String) : (fleetInit cfg width height teams nbClients counts teamNames).Inv width height where
  links := by
    intro K
    constructor
    case duplex => exact duplexInv_init width height teams nbClients counts (teamNames K)
    case counter => exact fun _ => rfl
    case lossless =>
      refine ⟨fun text htext => ?_, fun c cl hc => ?_, List.prefix_rfl⟩
      · cases htext
      · cases hc.heap
    case sober =>
      refine ⟨fun text htext => ?_, fun cmd hcmd => ?_⟩
      · cases htext
      · cases hcmd
    case loggedIn =>
      intro c cl hc
      cases hc.heap
  peace := by
    refine ⟨placed_init _ _ _ _ _, rfl, fun p level hp => ?_, fun e he => ?_⟩
    · cases hp
    · cases he

end Zappy

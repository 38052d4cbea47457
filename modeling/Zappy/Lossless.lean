import Zappy.CommandOrder
import Zappy.FlowControl

/-!
# A Java client loses no command

As long as the Java client counts its answers right, its next command finds room in the buffer of its client on the
server, and all its commands are known there.  So what was answered, and then what is queued, are all the commands
that were received, and the answers are the first of its commands, one after the other.
-/

namespace Zappy

open Run Stateful

variable {cfg : Config} {K : Conn} {d d' : Duplex} {msg : Json} {advice : Advice}

/-! ### What the client sends -/

section Texts

variable {P : List ClientMessage → Prop} {Q : Command → Prop}

/-- `P` of what the client has sent, and `Q` of every command that it has queued. -/
def JavaClient.Speech (P : List ClientMessage → Prop) (Q : Command → Prop) (c : JavaClient) : Prop :=
  P c.sent ∧ ∀ cmd ∈ c.commandQueue, Q cmd

private theorem sendMsg_speech {text : ClientMessage} (h : ∀ sent, P sent → P (sent ++ [text])) :
    Keeps (JavaClient.Speech P Q) (sendMsg text) := by
  refine .modify fun c hc => ?_
  split
  · exact ⟨h c.sent hc.1, hc.2⟩
  · exact hc

private theorem sendCommand_speech (cmd : Command) (h : ∀ sent, P sent → P (sent ++ [createCommandJsonMessage cmd])) :
    Keeps (JavaClient.Speech P Q) (sendCommand cmd) :=
  .bind .state fun _ => .ite (fun _ => .pure _) fun _ => .bind (.modify fun _ hc => hc) fun _ => sendMsg_speech h

private theorem sendLoop_speech (h : ∀ sent cmd, Q cmd → P sent → P (sent ++ [createCommandJsonMessage cmd]))
    {queue : List Command} (hqueue : ∀ cmd ∈ queue, Q cmd) : Keeps (JavaClient.Speech P Q) (sendLoop queue) := by
  induction queue with
  | nil => exact .pure _
  | cons cmd rest ih =>
    have hrest : ∀ cmd ∈ rest, Q cmd := fun cmd hcmd => hqueue cmd (List.mem_cons_of_mem _ hcmd)
    refine .bind .state fun c => .ite (fun _ => ?_) fun _ => .pure _
    refine .bind (.modify fun _ hc => ⟨hc.1, hrest⟩) fun _ => .bind ?_ fun _ => ih hrest
    exact sendCommand_speech cmd fun sent => h sent cmd (hqueue cmd List.mem_cons_self)

private theorem addCommands_speech {cmds : List Command} (h : ∀ cmd ∈ cmds, Q cmd) :
    Keeps (JavaClient.Speech P Q) (addCommands cmds) := by
  refine .modify fun c hc => ⟨hc.1, fun cmd hcmd => ?_⟩
  rcases List.mem_append.1 hcmd with hcmd | hcmd
  · exact hc.2 cmd hcmd
  · exact h cmd hcmd

/-- The commands of the AI are asked for and queued. -/
private theorem advice_speech (h : ∀ cmds, advice = some cmds → ∀ cmd ∈ cmds, Q cmd) :
    Keeps (JavaClient.Speech P Q) (do addCommands (← orThrow advice)) := by
  cases hadvice : advice with
  | none => exact fun _ hc => hc
  | some cmds => exact addCommands_speech (h cmds hadvice)

private theorem handleAnswer_speech (cmd : String) (h : ∀ cmds, advice = some cmds → ∀ cmd ∈ cmds, Q cmd) :
    Keeps (JavaClient.Speech P Q) (handleAnswer advice cmd msg) := by
  have hmoved : ∀ status move, Keeps (JavaClient.Speech P Q) (moved status move) := fun status move =>
    .ite (fun _ => .bind .state fun c => .bind (orThrow_keeps _) fun pos => .modify fun _ hc => hc) fun _ => .pure _
  have hstatus : Keeps (JavaClient.Speech P Q) (do let _ ← msg.getOr "status" "ko") :=
    .bind getOr_keeps fun _ => .pure _
  unfold handleAnswer
  split
  · exact .bind getOr_keeps fun status => hmoved status _
  · exact .bind getAsString_keeps fun status => hmoved status _
  · exact .bind getAsString_keeps fun status => hmoved status _
  · unfold handleVoirResponse
    split
    · refine .bind .state fun c => .bind (orThrow_keeps _) fun world => .bind (orThrow_keeps _) fun pos => ?_
      exact .bind (orThrow_keeps _) fun seen => .bind (.modify fun _ hc => hc) fun _ => advice_speech h
    · exact .throw _
  · unfold handleInventaireResponse
    split
    · refine .forM fun entry _ => .bind (orThrow_keeps _) fun resource => .bind (.modify fun _ hc => hc) fun _ => ?_
      exact .bind .state fun c => .bind (orThrow_keeps _) fun _ => .pure _
    · exact .throw _
  · refine .bind getOr_keeps fun status => .bind getOr_keeps fun item => .ite (fun _ => ?_) fun _ => .pure _
    refine .bind (orThrow_keeps _) fun resource => .bind (.modify fun _ hc => hc) fun _ => ?_
    refine .ite (fun _ => ?_) fun _ => .pure _
    exact .bind (.modify fun _ hc => hc) fun _ => .modify fun _ hc => hc
  · refine .bind getOr_keeps fun status => .bind getOr_keeps fun item => .ite (fun _ => ?_) fun _ => .pure _
    exact .bind (orThrow_keeps _) fun resource => .modify fun _ hc => hc
  · exact hstatus
  · exact hstatus
  · exact hstatus
  · exact .ite (fun _ => .bind getAsInt_keeps fun _ => .pure _) fun _ => .pure _
  · exact .pure _

private theorem playerHandleResponse_speech (h : ∀ cmds, advice = some cmds → ∀ cmd ∈ cmds, Q cmd) :
    Keeps (JavaClient.Speech P Q) (playerHandleResponse advice msg) := by
  have hrest : ∀ cmd, Keeps (JavaClient.Speech P Q) (if cmd = "-" then handleDieResponse msg else do
      handleAnswer advice cmd msg
      addLife (-(← fromName cmd).getTimeUnits)
      if cmd ≠ "voir" ∧ (← get).pendingResponses = 0 then
        let _ ← orThrow (← get).world
        addCommands (← orThrow advice)) := by
    intro cmd
    refine .ite (fun _ => ?_) fun _ => ?_
    · exact .bind getOr_keeps fun _ => .ite (fun _ => .modify fun _ hc => hc) fun _ => .pure _
    · refine .bind (handleAnswer_speech cmd h) fun _ => .bind (orThrow_keeps _) fun type => ?_
      refine .bind (.modify fun _ hc => hc) fun _ => .bind .state fun c => .ite (fun _ => ?_) fun _ => .pure _
      exact .bind .state fun c => .bind (orThrow_keeps _) fun _ => advice_speech h
  exact .ite (fun _ => .bind getAsString_keeps hrest) fun _ => .bind getAsString_keeps hrest

/-- What the texts of the client keep when it logs in or sends a command with `Q`, they keep when it handles a message,
if the AI returns such commands only. -/
theorem handleResponse_speech (hadvice : ∀ cmds, advice = some cmds → ∀ cmd ∈ cmds, Q cmd) (hvoir : Q { type := .voir })
    (hlogin : ∀ sent name, P sent → P (sent ++ [createLoginJsonMessage name]))
    (hcommand : ∀ sent cmd, Q cmd → P sent → P (sent ++ [createCommandJsonMessage cmd])) :
    Keeps (JavaClient.Speech P Q) (handleResponse advice msg) := by
  have hmsg : Keeps (JavaClient.Speech P Q) (handleMsg advice msg) := by
    refine .bind getOr_keeps fun type => ?_
    split
    · exact .bind getAsString_keeps fun _ => .bind .state fun c => sendMsg_speech fun sent => hlogin sent _
    · refine .bind getAsInt_keeps fun _ => ?_
      have hlook : Keeps (JavaClient.Speech P Q) (sendCommand { type := .voir }) :=
        sendCommand_speech _ fun sent => hcommand sent _ hvoir
      split
      · refine .bind (orThrow_keeps _) fun x => .bind (orThrow_keeps _) fun y => ?_
        exact .bind (.modify fun _ hc => hc) fun _ => hlook
      · exact hlook
    · exact .bind (.modify fun _ hc => hc) fun _ => playerHandleResponse_speech hadvice
    · exact .bind getAsInt_keeps fun _ => .bind getAsString_keeps fun _ => .modify fun _ hc => hc
    · exact .bind getAsInt_keeps fun _ => .modify fun _ hc => hc
    · exact .bind getAsString_keeps fun _ => .pure _
    · exact .bind getOr_keeps fun _ => .modify fun _ hc => hc
    · exact playerHandleResponse_speech hadvice
    · exact .pure _
  exact .bind hmsg fun _ => .get_bind fun c hc => sendLoop_speech hcommand hc.2 c hc

end Texts

private theorem known_command (cmd : Command) : (createCommandJsonMessage cmd).Known := fun _ =>
  ⟨cmd.type, commandTypeOf_getName cmd.type⟩

private theorem known_login (name : String) : (createLoginJsonMessage name).Known := fun h =>
  absurd h (by decide : some "login" ≠ some "cmd")

/-- The client goes on from what it has sent, with texts that the server knows. -/
theorem handleResponse_known (advice : Advice) (msg : Json) (c : JavaClient) (h : ∀ text ∈ c.sent, text.Known) :
    c.sent <+: (finalState (handleResponse advice msg) c).sent ∧
      ∀ text ∈ (finalState (handleResponse advice msg) c).sent, text.Known := by
  have hmore : ∀ {sent : List ClientMessage} {text : ClientMessage}, text.Known →
      (c.sent <+: sent ∧ ∀ text ∈ sent, text.Known) →
      c.sent <+: sent ++ [text] ∧ ∀ text' ∈ sent ++ [text], text'.Known := by
    rintro sent text hknown ⟨hearlier, hall⟩
    refine ⟨hearlier.trans (List.prefix_append _ _), fun text' htext' => ?_⟩
    rcases List.mem_append.1 htext' with htext' | htext'
    · exact hall text' htext'
    · obtain rfl := List.mem_singleton.1 htext'
      exact hknown
  have hkeeps : Keeps (JavaClient.Speech (fun sent => c.sent <+: sent ∧ ∀ text ∈ sent, text.Known) fun _ => True)
      (handleResponse advice msg) :=
    handleResponse_speech (fun _ _ _ _ => trivial) trivial (fun sent name hP => hmore (known_login name) hP)
      fun sent cmd _ hP => hmore (known_command cmd) hP
  exact (hkeeps c ⟨⟨List.prefix_rfl, h⟩, fun _ _ => trivial⟩).1

/-! ### The invariant -/

/-- All the commands that were received are answered or queued. -/
structure Lossless (K : Conn) (d : Duplex) : Prop where
  known : ∀ text ∈ d.client.sent, text.Known
  pending : ∀ c cl, LiveClient d.machine.server c cl → d.machine.session cl.socketFd = some K →
    answered (d.machine.wireTo K) ++ cl.eventBuffer.owed = commandNames d.received
  answers : answered (d.machine.wireTo K) <+: commandNames d.received

/-- Every answer names its command. -/
theorem answered_length (msgs : List Json) : (answered msgs).length = countKind .answer msgs := by
  unfold answered countKind
  rw [List.length_filterMap_eq_countP]
  refine List.countP_congr fun msg _ => ?_
  rw [decide_eq_true_eq]
  constructor
  · intro hsome
    by_contra hkind
    rw [Json.answers, if_neg hkind] at hsome
    cases hsome
  · intro hkind
    have hread := handleMsg_reading none msg
    rw [hkind] at hread
    cases hread with
    | answer hcmd => rw [Json.answers, if_pos hkind, hcmd]; rfl

private theorem commandNames_length_le (msgs : List ClientMessage) : (commandNames msgs).length ≤ commandsIn msgs := by
  unfold commandNames commandsIn
  rw [List.length_filterMap_eq_countP]
  refine List.countP_mono_left fun msg _ hsome => ?_
  rw [decide_eq_true_eq]
  by_contra htype
  rw [if_neg htype] at hsome
  cases hsome

/-- Every command that has a name is counted. -/
theorem commandNames_length {msgs : List ClientMessage} (h : ∀ msg ∈ msgs, msg.type = some "cmd" → msg.cmd.isSome) :
    (commandNames msgs).length = commandsIn msgs := by
  refine Nat.le_antisymm (commandNames_length_le msgs) ?_
  unfold commandNames commandsIn
  rw [List.length_filterMap_eq_countP]
  refine List.countP_mono_left fun msg hmsg htype => ?_
  rw [decide_eq_true_eq] at htype
  rw [if_pos htype]
  exact h msg hmsg htype

/-- Before its login is received, no command of the client is. -/
private theorem DuplexInv.nothing_received (h : DuplexInv K d) {act : MachineAction}
    (hsub : (d.received ++ d.machine.hears K act).Sublist d.client.sent)
    (hlogin : loginsIn (d.machine.hears K act) = 1) : commandsIn d.client.sent = 0 := by
  have hlogins : loginsIn (d.received ++ d.machine.hears K act) ≤ loginsIn d.client.sent := hsub.countP_le
  have hgreeted : countKind .bienvenue (d.processed K) ≤ countKind .bienvenue (d.machine.wireTo K) :=
    (List.take_sublist _ _).countP_le
  have hwelcomed : countKind .welcome (d.processed K) ≤ countKind .welcome (d.machine.wireTo K) :=
    (List.take_sublist _ _).countP_le
  have hlogged := h.logins
  have hone := h.accounts.bienvenue
  have hwelcome := h.accounts.welcome
  rw [loginsIn_append] at hlogins
  exact (h.fresh (by omega)).2

/-- A command of the client finds room. -/
private theorem DuplexInv.taken_all (h : DuplexInv K d) {act : MachineAction}
    (hstep : duplexStep cfg K d (.server act) = some d') {c : Addr} {cl : Client}
    (hc : LiveClient d.machine.server c cl) (hK : d.machine.session cl.socketFd = some K)
    (hknown : ∀ text ∈ d.client.sent, text.Known) {taken : List String}
    (htaken : taken.Sublist (commandNames (d.machine.hears K act)))
    (hall : cl.eventBuffer.count < maxEvents → (∀ text ∈ d.machine.hears K act, text.Known) →
      taken = commandNames (d.machine.hears K act)) : taken = commandNames (d.machine.hears K act) := by
  cases hheard : d.machine.heardText K act with
  | none =>
    rw [Machine.hears, hheard] at htaken ⊢
    exact List.eq_nil_of_sublist_nil htaken
  | some text =>
    simp only [duplexStep, hheard] at hstep
    split at hstep
    · rename_i hnext
      obtain ⟨hsome, hnext⟩ := hnext
      obtain ⟨msg, rfl⟩ := Option.isSome_iff_exists.1 hsome
      have hears : d.machine.hears K act = [msg] := by rw [Machine.hears, hheard]; rfl
      rw [hears] at htaken hall ⊢
      by_cases htype : msg.type = some "cmd"
      · refine hall (h.flowOk.room msg hnext htype c cl hc ?_) fun text htext => ?_
        · rcases h.accounts.sessions.status c cl hc with hatt | hleave
          · rw [Machine.heard, if_pos (hatt.session.trans hatt.owner.symm), hatt.owner, ← hatt.session, hK]
          · rw [hleave.session] at hK
            cases hK
        · rw [List.mem_singleton.1 htext]
          exact hknown msg (List.mem_of_getElem? hnext)
      · have hnone : commandNames [msg] = [] := commandNames_of_type htype
        rw [hnone] at htaken ⊢
        exact List.eq_nil_of_sublist_nil htaken
    · cases hstep

theorem Lossless.server {act : MachineAction} (h : Lossless K d) (hI : DuplexInv K d) (hI' : DuplexInv K d')
    (hstep : duplexStep cfg K d (.server act) = some d') : Lossless K d' := by
  obtain ⟨m, n, hm, rfl, hn, hreceived⟩ := duplexStep_server hstep
  obtain ⟨names, rest, hprogress⟩ := hI.accounts.progress hm
  have hnames : Duplex.received { d with machine := m, taken := n } =
      d.received ++ d.machine.hears K act := hreceived
  have hsub : (d.received ++ d.machine.hears K act).Sublist d.client.sent := by
    rw [← hreceived]
    exact List.take_sublist _ _
  -- what is answered was queued, so it is next among the commands received
  have hanswers : answered (m.wireTo K) <+: commandNames d.received := by
    rw [hprogress.answers]
    cases hcl : d.machine.clientOf K with
    | none =>
      have hqueue := hprogress.queue []
      have hempty : (d.machine.service K []).queue = [] := by
        rw [Machine.service, hcl]
        rfl
      rw [hempty] at hqueue
      rw [(List.append_eq_nil_iff.1 hqueue.symm).1, List.append_nil]
      exact h.answers
    | some cl =>
      obtain ⟨c, hc, hK⟩ := clientOf_some hcl
      rw [← h.pending c cl hc hK, ← hI.accounts.queue hc hK [], hprogress.queue, ← List.append_assoc]
      exact List.prefix_append _ _
  constructor
  case known => exact h.known
  case answers =>
    rw [hnames, commandNames_append]
    exact hanswers.trans (List.prefix_append _ _)
  case pending =>
    intro c cl' hc hK
    rw [hnames, commandNames_append]
    rcases hprogress.clients c cl' hc hK with ⟨hzero, hlogin⟩ | ⟨cl, taken, hc₀, hK₀, howed, htaken, hall⟩
    · -- the client has just logged in, and no command was received before
      have hnone := hI.nothing_received hsub hlogin
      have hcommands : commandsIn (d.received ++ d.machine.hears K act) ≤ commandsIn d.client.sent := hsub.countP_le
      have hreceivedNames := commandNames_length_le (d.received ++ d.machine.hears K act)
      have hempty : commandNames (d.received ++ d.machine.hears K act) = [] :=
        List.length_eq_zero_iff.1 (by omega)
      have hansweredNone : answered (m.wireTo K) = [] := by
        have hearlier := hanswers.trans (List.prefix_append _ (commandNames (d.machine.hears K act)))
        rw [← commandNames_append, hempty] at hearlier
        exact List.prefix_nil.1 hearlier
      rw [← commandNames_append, hempty]
      dsimp only
      rw [hansweredNone, EventBuffer.owed_zero hzero]
      rfl
    · have hqueue := hI.accounts.queue hc₀ hK₀ []
      rw [hprogress.queue] at hqueue
      have htook := hI.taken_all hstep hc₀ hK₀ h.known htaken hall
      dsimp only
      rw [hprogress.answers, howed, htook, ← h.pending c cl hc₀ hK₀, ← hqueue]
      simp only [List.append_assoc]

theorem Lossless.message (h : Lossless K d) (hI : DuplexInv K d)
    (hstep : duplexStep cfg K d (.message advice) = some d') : Lossless K d' := by
  obtain ⟨msg, -, hmsg, rfl⟩ := duplexStep_message hstep
  obtain ⟨hearlier, hknown⟩ := handleResponse_known advice msg d.client h.known
  have hreceived : Duplex.received { d with
      client := finalState (handleResponse advice msg) d.client
      read := d.read + 1 } = d.received := by
    obtain ⟨more, hmore⟩ := hearlier
    unfold Duplex.received
    dsimp only
    rw [← hmore, List.take_append_of_le_length hI.taken]
  constructor
  case known => exact hknown
  case pending =>
    rw [hreceived]
    exact h.pending
  case answers =>
    rw [hreceived]
    exact h.answers

/-- In every run in which no two clients of the server come to share a descriptor and the Java client miscounts no
message, the commands that were answered on its connection, followed by those that are queued for its client, are
all the commands received from it, in order, as long as its client lives. -/
theorem flow_control_lossless (cfg : Config) (width height : Nat) (teams : List String) (nbClients : Nat)
    (counts : Nat → InventoryType → Nat) (teamName : String) (K : Conn) (as : List DuplexAction) {d : Duplex}
    (hG : Guarded (duplexStep cfg K) DuplexGuard (duplexInit cfg width height teams nbClients counts teamName) as)
    (hC : Guarded (duplexStep cfg K) (Counted K) (duplexInit cfg width height teams nbClients counts teamName) as)
    (h : run (duplexStep cfg K) (duplexInit cfg width height teams nbClients counts teamName) as = some d) :
    answered (d.machine.wireTo K) <+: commandNames d.received ∧
      ∀ c cl, LiveClient d.machine.server c cl → d.machine.session cl.socketFd = some K →
        answered (d.machine.wireTo K) ++ cl.eventBuffer.owed = commandNames d.received := by
  have hrun : DuplexInv K d ∧ Lossless K d := by
    refine (hG.and hC).invariant (I := fun d => DuplexInv K d ∧ Lossless K d) ?_ h ⟨duplexInv_init _ _ _ _ _ _, ?_⟩
    · rintro d act d' hstep ⟨hG, hC⟩ ⟨hI, hL⟩
      have hI' := (hI.step hG hstep).1 hC
      refine ⟨hI', ?_⟩
      cases act with
      | server act => exact hL.server hI hI' hstep
      | message advice => exact hL.message hI hstep
      | close =>
        cases hstep
        exact ⟨hL.known, hL.pending, hL.answers⟩
      | error =>
        cases hstep
        exact ⟨hL.known, hL.pending, hL.answers⟩
    · constructor
      case known => exact fun text htext => by cases htext
      case pending => exact fun c cl hc => by cases hc.heap
      case answers => exact List.prefix_rfl
  exact ⟨hrun.2.answers, hrun.2.pending⟩

/-- The client looks around, and of the two steps that it takes then the first is received. -/
def clientWalks : List DuplexAction :=
  clientLooks ++
    (scanPass [4] [.receive (.text (some { type := "cmd", cmd := "avance" })) ⟨0, 0, 0⟩] 0).map .server

theorem flow_control_lossless_walk : ∃ (d : Duplex) (c : Addr) (cl : Client),
    run (duplexStep shippedConfig 1) shippedDuplex clientWalks = some d ∧ LiveClient d.machine.server c cl ∧
    cl.eventBuffer.owed = ["avance"] ∧
    answered (d.machine.wireTo 1) ++ cl.eventBuffer.owed = commandNames d.received := by
  have hrun : ((run (duplexStep shippedConfig 1) shippedDuplex clientWalks).bind fun d =>
      (d.machine.server.clientHeap 0).map fun cl =>
        (d.machine.server.live, d.machine.session cl.socketFd, cl.eventBuffer.owed)) =
      some ([0], some 1, ["avance"]) := by decide +kernel
  have hguard : testGuard (duplexStep shippedConfig 1) duplexTest shippedDuplex clientWalks := by decide +kernel
  have hcounted : testGuard (duplexStep shippedConfig 1) (countedTest 1) shippedDuplex clientWalks := by
    decide +kernel
  obtain ⟨d, hd, hmap⟩ := Option.bind_eq_some_iff.1 hrun
  obtain ⟨cl, hcl, hfacts⟩ := Option.map_eq_some_iff.1 hmap
  simp only [Prod.mk.injEq] at hfacts
  obtain ⟨hlive, hK, howed⟩ := hfacts
  have hc : LiveClient d.machine.server 0 cl := ⟨by rw [hlive]; exact List.mem_singleton.2 rfl, hcl⟩
  obtain ⟨-, hall⟩ := flow_control_lossless shippedConfig 1 1 ["red"] 2 (fun _ _ => 0) "red" 1 clientWalks
    (.of_test duplexGuard_of_test hguard) (.of_test counted_of_test hcounted) hd
  exact ⟨d, 0, cl, hd, hc, howed, hall 0 cl hc hK⟩

end Zappy

import Zappy.Replies
import Zappy.Lib.Stateful

/-!
# The counter of the client

What a message of the server does to `pendingResponses` and to what the client has sent, by the kind of the message.
The handlers of the answers leave both alone, and `sendLoop` sends as many of the queued commands as it may.  When the
session is closed, the loop still counts the commands that it takes out of the queue, but they are not sent.
-/

namespace Zappy

open Stateful

variable {advice : Advice} {msg : Json} {c c' : JavaClient} {b : Bool × Bool × Int × List ClientMessage}

/-! ### The sending loop -/

/-- What the counting of answers depends on. -/
def JavaClient.book (c : JavaClient) : Bool × Bool × Int × List ClientMessage :=
  (c.sessionOpen, c.dead, c.pendingResponses, c.sent)

/-- The number of queued commands that the sending loop counts. -/
def JavaClient.quota (c : JavaClient) : Nat :=
  if c.dead then 0 else min c.commandQueue.length (10 - c.pendingResponses).toNat

/-- The client after a command: it waits for one answer more, and has sent the command if the session is open. -/
def JavaClient.commanded (c : JavaClient) (cmd : Command) : JavaClient :=
  if c.dead then c
  else
    { c with
      pendingResponses := c.pendingResponses + 1
      sent := if c.sessionOpen then c.sent ++ [createCommandJsonMessage cmd] else c.sent }

theorem sendCommand_run (c : JavaClient) (cmd : Command) : (sendCommand cmd).run c = .ok ⟨⟩ (c.commanded cmd) := by
  obtain ⟨teamName, pending, queue, dead, sessionOpen⟩ := c
  cases dead with
  | true => rfl
  | false =>
    cases sessionOpen with
    | false => rfl
    | true => rfl

/-- A client whose loop counts nothing. -/
private theorem book_of_quota (hquota : c.quota = 0) (queue : List Command) :
    c.book = (c.sessionOpen, c.dead, c.pendingResponses + c.quota,
      if c.sessionOpen then c.sent ++ (queue.take c.quota).map createCommandJsonMessage else c.sent) := by
  rw [hquota]
  simp [JavaClient.book]

theorem sendLoop_book (queue : List Command) (hqueue : c.commandQueue = queue) :
    (finalState (sendLoop queue) c).book =
      (c.sessionOpen, c.dead, c.pendingResponses + c.quota,
        if c.sessionOpen then c.sent ++ (queue.take c.quota).map createCommandJsonMessage else c.sent) := by
  induction queue generalizing c with
  | nil =>
    rw [sendLoop, finalState_pure]
    refine book_of_quota ?_ _
    simp [JavaClient.quota, hqueue]
  | cons cmd rest ih =>
    rw [sendLoop, finalState_get_bind]
    by_cases hpending : c.pendingResponses < 10
    · rw [if_pos hpending, finalState_modify_bind, finalState_bind_ok (sendCommand_run _ cmd)]
      by_cases hdead : c.dead
      · -- a dead client takes the command, and does not send it
        have hrest := ih (c := { c with commandQueue := rest }) rfl
        simp only [JavaClient.quota, JavaClient.commanded, hdead, if_true] at hrest ⊢
        exact hrest
      · -- one command is sent, and the loop goes on with the rest
        have hrest := ih (c := JavaClient.commanded { c with commandQueue := rest } cmd) (by
          simp [JavaClient.commanded, hdead])
        have hquota : c.quota = (JavaClient.commanded { c with commandQueue := rest } cmd).quota + 1 := by
          simp only [JavaClient.quota, hqueue, JavaClient.commanded, List.length_cons, hdead]
          simp only [Bool.false_eq_true, if_false]
          omega
        rw [hrest, hquota, List.take_succ_cons, List.map_cons]
        simp only [JavaClient.commanded, hdead, Bool.false_eq_true, if_false, Prod.mk.injEq, true_and]
        refine ⟨by omega, ?_⟩
        by_cases hopen : c.sessionOpen
        · simp only [hopen, if_true, List.append_assoc, List.singleton_append]
        · simp only [hopen, Bool.false_eq_true, if_false]
    · rw [if_neg hpending, finalState_pure]
      refine book_of_quota ?_ _
      unfold JavaClient.quota
      split <;> omega

/-- When the session is closed, the loop counts commands and sends none. -/
private theorem closed_loop (hclosed : c.sessionOpen = false) :
    (finalState (sendLoop c.commandQueue) c).pendingResponses = c.pendingResponses + c.quota ∧
      (finalState (sendLoop c.commandQueue) c).sent = c.sent := by
  have hbook := sendLoop_book c.commandQueue rfl
  simp only [JavaClient.book, hclosed, Bool.false_eq_true, if_false, Prod.mk.injEq] at hbook
  exact hbook.2.2

/-! ### Handlers -/

section Keeping

variable {I : JavaClient → Prop} {key default : String} {α : Type}

theorem getAsString_keeps : Keeps I (msg.getAsString key) := by
  unfold Json.getAsString
  split
  · exact .pure _
  · exact .pure _
  · exact .throw _

theorem getAsInt_keeps : Keeps I (msg.getAsInt key) := by
  unfold Json.getAsInt
  split
  · exact .pure _
  · split
    · exact .pure _
    · exact .throw _
  · exact .throw _

theorem getOr_keeps : Keeps I (msg.getOr key default) :=
  .ite (fun _ => getAsString_keeps) fun _ => .pure _

theorem orThrow_keeps (a : Option α) : Keeps I (orThrow a) := by
  cases a with
  | none => exact .throw _
  | some a => exact .pure _

end Keeping

/-- `x` leaves the counter and the texts sent alone. -/
def Uncounted (x : ClientM Unit) : Prop := ∀ b, Keeps (fun c => c.book = b) x

theorem addLife_uncounted (life : Int) : Uncounted (addLife life) := fun _ => .modify fun _ h => h

theorem addCommands_uncounted (cmds : List Command) : Uncounted (addCommands cmds) := fun _ => .modify fun _ h => h

private theorem moved_uncounted (status : String) (move : ClientPosition → ClientPosition) :
    Uncounted (moved status move) := by
  intro b
  refine .ite (fun _ => ?_) fun _ => .pure _
  refine .bind .state fun c => .bind (orThrow_keeps _) fun pos => .modify fun _ h => h

private theorem handleVoirResponse_uncounted : Uncounted (handleVoirResponse advice msg) := by
  intro b
  unfold handleVoirResponse
  split
  · refine .bind .state fun c => .bind (orThrow_keeps _) fun world => .bind (orThrow_keeps _) fun pos => ?_
    refine .bind (orThrow_keeps _) fun seen => .bind (.modify fun _ h => h) fun _ => ?_
    exact .bind (orThrow_keeps _) fun cmds => addCommands_uncounted cmds b
  · exact .throw _

private theorem handleInventaireResponse_uncounted : Uncounted (handleInventaireResponse msg) := by
  intro b
  unfold handleInventaireResponse
  split
  · refine .forM fun entry _ => .bind (orThrow_keeps _) fun resource => .bind (.modify fun _ h => h) fun _ => ?_
    exact .bind .state fun c => .bind (orThrow_keeps _) fun _ => .pure _
  · exact .throw _

private theorem handlePrendResponse_uncounted : Uncounted (handlePrendResponse msg) := by
  intro b
  refine .bind getOr_keeps fun status => .bind getOr_keeps fun item => .ite (fun _ => ?_) fun _ => .pure _
  refine .bind (orThrow_keeps _) fun resource => .bind (.modify fun _ h => h) fun _ => ?_
  refine .ite (fun _ => ?_) fun _ => .pure _
  exact .bind (addLife_uncounted _ b) fun _ => .modify fun _ h => h

private theorem handlePoseResponse_uncounted : Uncounted (handlePoseResponse msg) := by
  intro b
  refine .bind getOr_keeps fun status => .bind getOr_keeps fun item => .ite (fun _ => ?_) fun _ => .pure _
  exact .bind (orThrow_keeps _) fun resource => .modify fun _ h => h

theorem handleAnswer_uncounted (cmd : String) : Uncounted (handleAnswer advice cmd msg) := by
  intro b
  have hstatus : Keeps (fun c => c.book = b) (do let _ ← msg.getOr "status" "ko") :=
    .bind getOr_keeps fun _ => .pure _
  unfold handleAnswer
  split
  · exact .bind getOr_keeps fun status => moved_uncounted status _ b
  · exact .bind getAsString_keeps fun status => moved_uncounted status _ b
  · exact .bind getAsString_keeps fun status => moved_uncounted status _ b
  · exact handleVoirResponse_uncounted b
  · exact handleInventaireResponse_uncounted b
  · exact handlePrendResponse_uncounted b
  · exact handlePoseResponse_uncounted b
  · exact hstatus
  · exact hstatus
  · exact hstatus
  · exact .ite (fun _ => .bind getAsInt_keeps fun _ => .pure _) fun _ => .pure _
  · exact .pure _

theorem getAsString_eq {key text : String} (h : msg.lookup key = some (.str text)) :
    msg.getAsString key = pure text := by
  unfold Json.getAsString
  rw [h]

theorem getOr_eq {key default text : String} (h : msg.lookup key = some (.str text)) :
    msg.getOr key default = pure text := by
  have hhas : msg.has key := by simp [Json.has, h]
  unfold Json.getOr
  rw [if_pos hhas, getAsString_eq h]

/-- `Player.handleResponse` counts nothing, unless it is told that the player has died. -/
theorem playerHandleResponse_uncounted {cmd : String} (hcmd : msg.lookup "cmd" = some (.str cmd)) (hdie : cmd ≠ "-") :
    Uncounted (playerHandleResponse advice msg) := by
  intro b
  have hhas : msg.has "cmd" := by simp [Json.has, hcmd]
  unfold playerHandleResponse
  rw [if_pos hhas, getAsString_eq hcmd, pure_bind]
  dsimp only
  rw [if_neg hdie]
  refine .bind (handleAnswer_uncounted cmd b) fun _ => ?_
  refine .bind (orThrow_keeps _) fun type => .bind (addLife_uncounted _ b) fun _ => .bind .state fun c => ?_
  refine .ite (fun _ => ?_) fun _ => .pure _
  exact .bind .state fun c => .bind (orThrow_keeps _) fun _ => .bind (orThrow_keeps _) fun cmds =>
    addCommands_uncounted cmds b

/-- The death of the player closes the session. -/
theorem playerHandleResponse_die (hcmd : msg.lookup "cmd" = some (.str "-"))
    (harg : msg.lookup "arg" = some (.str "die")) :
    (playerHandleResponse advice msg).run c = .ok ⟨⟩ { c with sessionOpen := false } := by
  have hhas : msg.has "cmd" := by simp [Json.has, hcmd]
  unfold playerHandleResponse handleDieResponse
  rw [if_pos hhas, getAsString_eq hcmd, pure_bind]
  dsimp only
  rw [if_pos rfl, getOr_eq harg, pure_bind]
  rfl

/-! ### Messages by kind -/

/-- The handler that reads a message of a kind. -/
inductive Reading (advice : Advice) (msg : Json) : Kind → Prop
  | bienvenue (h : handleMsg advice msg = handleBienvenueMsg msg) : Reading advice msg .bienvenue
  | welcome (h : handleMsg advice msg = handleWelcomeMsg msg) : Reading advice msg .welcome
  | answer {cmd : String} (hcmd : msg.lookup "cmd" = some (.str cmd)) (hdie : cmd ≠ "-")
      (h : handleMsg advice msg = handleResponseMsg advice msg) : Reading advice msg .answer
  | notice {cmd : String} (hcmd : msg.lookup "cmd" = some (.str cmd)) (hdie : cmd ≠ "-")
      (h : handleMsg advice msg = handleResponseMsg advice msg) : Reading advice msg .notice
  | farewell (hcmd : msg.lookup "cmd" = some (.str "-")) (harg : msg.lookup "arg" = some (.str "die"))
      (h : handleMsg advice msg = handleResponseMsg advice msg) : Reading advice msg .farewell
  | error (harg : msg.has "arg" = false) (h : handleMsg advice msg = handleErrorMsg msg) : Reading advice msg .error
  | remark (h : handleMsg advice msg = pure ()) : Reading advice msg .remark
  | alien : Reading advice msg .alien

theorem handleMsg_reading (advice : Advice) (msg : Json) : Reading advice msg msg.kind := by
  have htype : ∀ {type}, msg.lookup "type" = some (.str type) → handleMsg advice msg = _ := fun h =>
    (congrArg (fun x => x >>= _) (getOr_eq h)).trans (pure_bind _ _)
  unfold Json.kind
  split
  · rename_i h
    exact .bienvenue (htype h)
  · rename_i h
    exact .welcome (htype h)
  · rename_i h
    unfold responseKind
    split
    · rename_i cmd hcmd
      by_cases hnotice : cmd = "message" ∨ cmd = "deplacement"
      · rw [if_pos hnotice]
        refine .notice hcmd ?_ (htype h)
        rcases hnotice with rfl | rfl
        · decide
        · decide
      rw [if_neg hnotice]
      by_cases hdie : cmd = "-"
      · rw [if_pos hdie]
        split
        · rename_i harg
          exact .farewell (hdie ▸ hcmd) harg (htype h)
        · exact .alien
      rw [if_neg hdie]
      split
      · exact .notice hcmd hdie (htype h)
      · exact .answer hcmd hdie (htype h)
    · exact .alien
  · rename_i h
    split
    · exact .alien
    · rename_i harg
      exact .error (by simpa using harg) (htype h)
  · rename_i h
    exact .remark (htype h)
  · rename_i h
    exact .remark (htype h)
  · exact .alien

/-! ### Books -/

/-- The books of a client whose session is open: it goes on from the texts `earlier`, has sent no more than `logins`
logins, and its counter is the number of commands sent, and `balance`. -/
structure Books (earlier : List ClientMessage) (logins : Nat) (balance : Int) (c : JavaClient) : Prop where
  online : c.sessionOpen = true
  earlier : earlier <+: c.sent
  logins : loginsIn c.sent ≤ logins
  balance : c.pendingResponses = commandsIn c.sent + balance
  limit : c.pendingResponses ≤ 10

/-- The books of a client that may send a command. -/
structure ReadyBooks (earlier : List ClientMessage) (logins : Nat) (balance : Int) (c : JavaClient) : Prop
    extends Books earlier logins balance c where
  pending : c.pendingResponses < 10

variable {earlier : List ClientMessage} {logins : Nat} {balance : Int}

private theorem Books.of_book (h : Books earlier logins balance c) (hbook : c'.book = c.book) :
    Books earlier logins balance c' := by
  simp only [JavaClient.book, Prod.mk.injEq] at hbook
  obtain ⟨honline, -, hpending, hsent⟩ := hbook
  constructor
  case online => exact honline.trans h.online
  case earlier => exact hsent ▸ h.earlier
  case logins => exact hsent ▸ h.logins
  case balance => exact hpending.trans (hsent ▸ h.balance)
  case limit => exact hpending ▸ h.limit

@[simp] theorem commandsIn_commands (cmds : List Command) :
    commandsIn (cmds.map createCommandJsonMessage) = cmds.length := by
  unfold commandsIn
  rw [List.countP_map, List.countP_eq_length]
  exact fun _ _ => rfl

@[simp] theorem loginsIn_commands (cmds : List Command) : loginsIn (cmds.map createCommandJsonMessage) = 0 := by
  unfold loginsIn
  rw [List.countP_map, List.countP_eq_zero]
  intro cmd _
  exact (by decide : ¬ decide (some "cmd" = some "login"))

theorem ReadyBooks.command (h : ReadyBooks earlier logins balance c) (cmd : Command) :
    Books earlier logins balance (finalState (sendCommand cmd) c) := by
  have hfinal : finalState (sendCommand cmd) c = c.commanded cmd := by rw [finalState, sendCommand_run]
  rw [hfinal, JavaClient.commanded]
  split
  · exact h.toBooks
  · rw [if_pos h.online]
    constructor
    case online => exact h.online
    case earlier => exact h.earlier.trans (List.prefix_append _ _)
    case logins =>
      rw [loginsIn_append]
      exact h.logins
    case balance =>
      have hbalance := h.balance
      have hone : commandsIn [createCommandJsonMessage cmd] = 1 := rfl
      dsimp only
      rw [commandsIn_append, hone]
      omega
    case limit =>
      have hpending := h.pending
      dsimp only
      omega

/-- The sending loop keeps the books. -/
theorem Books.loop (h : Books earlier logins balance c) :
    Books earlier logins balance (finalState (sendLoop c.commandQueue) c) := by
  have hquota : c.quota ≤ c.commandQueue.length ∧ (c.quota : Int) ≤ 10 - c.pendingResponses := by
    have hlimit := h.limit
    unfold JavaClient.quota
    split <;> omega
  have hlength : (c.commandQueue.take c.quota).length = c.quota := List.length_take_of_le hquota.1
  have hbook := sendLoop_book c.commandQueue rfl
  rw [if_pos h.online] at hbook
  refine Books.of_book (c := { c with
    pendingResponses := c.pendingResponses + c.quota
    sent := c.sent ++ (c.commandQueue.take c.quota).map createCommandJsonMessage }) ?_ hbook
  constructor
  case online => exact h.online
  case earlier => exact h.earlier.trans (List.prefix_append _ _)
  case logins =>
    simp only [loginsIn_append, loginsIn_commands]
    exact h.logins
  case balance =>
    have hbalance := h.balance
    simp only [commandsIn_append, commandsIn_commands, hlength]
    omega
  case limit =>
    dsimp only
    omega

theorem handleResponse_ok {c₁ : JavaClient} (h : (handleMsg advice msg).run c = .ok ⟨⟩ c₁) :
    finalState (handleResponse advice msg) c = finalState (sendLoop c₁.commandQueue) c₁ := by
  unfold handleResponse
  rw [finalState_bind_ok h, finalState_get_bind]

theorem Books.handled (h : Books earlier logins balance (finalState (handleMsg advice msg) c)) :
    Books earlier logins balance (finalState (handleResponse advice msg) c) := by
  unfold finalState at h
  split at h
  · rename_i hrun
    rw [handleResponse_ok hrun]
    exact h.loop
  · rename_i hrun
    unfold handleResponse
    rw [finalState_bind_error hrun]
    exact h

/-- An answer or a notice: one answer fewer is waited for. -/
theorem Books.response (h : Books earlier logins balance c) (hkind : msg.kind = .answer ∨ msg.kind = .notice) :
    Books earlier logins (balance - 1) (finalState (handleResponse advice msg) c) := by
  refine Books.handled ?_
  have hresponse : ∃ cmd, msg.lookup "cmd" = some (.str cmd) ∧ cmd ≠ "-" ∧
      handleMsg advice msg = handleResponseMsg advice msg := by
    have hread := handleMsg_reading advice msg
    rcases hkind with hkind | hkind
    · rw [hkind] at hread
      cases hread with
      | answer hcmd hdie hmsg => exact ⟨_, hcmd, hdie, hmsg⟩
    · rw [hkind] at hread
      cases hread with
      | notice hcmd hdie hmsg => exact ⟨_, hcmd, hdie, hmsg⟩
  obtain ⟨cmd, hcmd, hdie, hmsg⟩ := hresponse
  rw [hmsg, handleResponseMsg, finalState_modify_bind]
  have hless : Books earlier logins (balance - 1) { c with pendingResponses := c.pendingResponses - 1 } :=
    { h with
      balance := by
        have hbalance := h.balance
        dsimp only
        omega
      limit := by
        have hlimit := h.limit
        dsimp only
        omega }
  exact hless.of_book (playerHandleResponse_uncounted hcmd hdie _ _ rfl)

theorem Books.remark (h : Books earlier logins balance c) (hkind : msg.kind = .remark) :
    Books earlier logins balance (finalState (handleResponse advice msg) c) := by
  refine Books.handled ?_
  have hread := handleMsg_reading advice msg
  rw [hkind] at hread
  cases hread with
  | remark hmsg =>
    rw [hmsg]
    exact h

/-- The greeting of the server is answered by a login. -/
theorem Books.bienvenue (h : Books earlier logins balance c) (hkind : msg.kind = .bienvenue) :
    Books earlier (logins + 1) balance (finalState (handleResponse advice msg) c) := by
  refine Books.handled ?_
  have hread := handleMsg_reading advice msg
  rw [hkind] at hread
  cases hread with
  | bienvenue hmsg =>
    have hmore : ∀ c, Books earlier logins balance c → Books earlier (logins + 1) balance c := fun c h =>
      { h with logins := h.logins.trans (Nat.le_succ _) }
    rw [hmsg, handleBienvenueMsg]
    refine Keeps.bind_to h getAsString_keeps hmore fun _ c h => ?_
    rw [finalState_get_bind]
    change Books earlier (logins + 1) balance (if c.sessionOpen ∧ ¬ c.dead then _ else c)
    split
    · constructor
      case online => exact h.online
      case earlier => exact h.earlier.trans (List.prefix_append _ _)
      case logins =>
        rw [loginsIn_append]
        exact Nat.add_le_add h.logins (Nat.le_refl 1)
      case balance =>
        rw [commandsIn_append]
        exact h.balance
      case limit => exact h.limit
    · exact hmore c h

/-- The client knows that it plays, and looks around. -/
theorem Books.welcome (h : Books earlier logins balance c) (hkind : msg.kind = .welcome)
    (hpending : c.pendingResponses < 10) :
    Books earlier logins balance (finalState (handleResponse advice msg) c) := by
  refine Books.handled ?_
  have hread := handleMsg_reading advice msg
  rw [hkind] at hread
  cases hread with
  | welcome hmsg =>
    rw [hmsg, handleWelcomeMsg]
    have hvoir : ∀ c, ReadyBooks earlier logins balance c →
        Books earlier logins balance (finalState (sendCommand { type := .voir }) c) := fun c h => h.command _
    have hready : ReadyBooks earlier logins balance c := ⟨h, hpending⟩
    refine Keeps.bind_to hready getAsInt_keeps (fun _ h => h.toBooks) fun _ c h => ?_
    dsimp only
    split
    · refine Keeps.bind_to h (orThrow_keeps _) (fun _ h => h.toBooks) fun x c h => ?_
      refine Keeps.bind_to h (orThrow_keeps _) (fun _ h => h.toBooks) fun y c h => ?_
      rw [finalState_modify_bind]
      exact hvoir _ ⟨h.of_book rfl, h.pending⟩
    · exact hvoir c h

/-! ### Before the first command, and after the last -/

/-- A client with nothing in its queue reads a message that neither welcomes it nor answers it. -/
theorem handleResponse_idle (hkind : msg.kind = .bienvenue ∨ msg.kind = .error ∨ msg.kind = .remark) (n : Nat) :
    Keeps (fun c => c.commandQueue = [] ∧ commandsIn c.sent = n) (handleResponse advice msg) := by
  have hsend : ∀ text : ClientMessage, text.type = some "login" →
      Keeps (fun c => c.commandQueue = [] ∧ commandsIn c.sent = n) (sendMsg text) := by
    intro text htype
    refine .modify fun c h => ?_
    split
    · refine ⟨h.1, ?_⟩
      have hnone : commandsIn [text] = 0 := by simp [commandsIn, htype]
      rw [commandsIn_append, hnone]
      exact h.2
    · exact h
  have hmsg : Keeps (fun c => c.commandQueue = [] ∧ commandsIn c.sent = n) (handleMsg advice msg) := by
    have hread := handleMsg_reading advice msg
    rcases hkind with hkind | hkind | hkind
    · rw [hkind] at hread
      cases hread with
      | bienvenue hmsg =>
        rw [hmsg]
        exact .bind getAsString_keeps fun _ => .bind .state fun c => hsend _ rfl
    · rw [hkind] at hread
      cases hread with
      | error harg hmsg =>
        rw [hmsg]
        exact .bind getOr_keeps fun _ => .modify fun c h => h
    · rw [hkind] at hread
      cases hread with
      | remark hmsg =>
        rw [hmsg]
        exact .pure _
  refine .bind hmsg fun _ => .get_bind fun c h => ?_
  rw [h.1]
  exact h

/-- An error closes the session before the loop, which sends nothing then. -/
theorem handleResponse_error (advice : Advice) (c : JavaClient) (hkind : msg.kind = .error) :
    (finalState (handleResponse advice msg) c).pendingResponses = c.pendingResponses + c.quota ∧
      (finalState (handleResponse advice msg) c).sent = c.sent := by
  have hread := handleMsg_reading advice msg
  rw [hkind] at hread
  cases hread with
  | error harg hmsg =>
    have hclosed : (handleMsg advice msg).run c = .ok ⟨⟩ { c with sessionOpen := false } := by
      rw [hmsg, handleErrorMsg, Json.getOr, harg]
      rfl
    rw [handleResponse_ok hclosed]
    exact closed_loop rfl

/-- So does the death of the player, for which one answer fewer is waited for. -/
theorem handleResponse_farewell (advice : Advice) (c : JavaClient) (hkind : msg.kind = .farewell) :
    (finalState (handleResponse advice msg) c).pendingResponses =
        c.pendingResponses - 1 + JavaClient.quota { c with pendingResponses := c.pendingResponses - 1 } ∧
      (finalState (handleResponse advice msg) c).sent = c.sent := by
  have hread := handleMsg_reading advice msg
  rw [hkind] at hread
  cases hread with
  | farewell hcmd harg hmsg =>
    have hclosed : (handleMsg advice msg).run c =
        .ok ⟨⟩ { c with pendingResponses := c.pendingResponses - 1, sessionOpen := false } := by
      rw [hmsg]
      exact playerHandleResponse_die hcmd harg
    rw [handleResponse_ok hclosed]
    exact closed_loop rfl

/-- After such a message the counter of the client is wrong, if it was right before: a notice, or a message that
closes the session, unless the loop makes up for it with commands that are not sent. -/
def miscounts (c : JavaClient) (msg : Json) : Bool :=
  match msg.kind with
  | .notice => true
  | .farewell => JavaClient.quota { c with pendingResponses := c.pendingResponses - 1 } ≠ 1
  | .error => c.quota ≠ 0
  | _ => false

end Zappy

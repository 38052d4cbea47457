import Zappy.PendingResponses

/-!
# What the client knows (`Player.java`)

Each message of the server changes the client's level, world, position and inventory in the handler of one command
only, and the welcome sets world and position.
-/

namespace Zappy

open Stateful

/-- What the client knows of the game. -/
structure Known where
  level : Int
  world : Option World
  position : Option ClientPosition
  inventory : Resource → Option Int

def JavaClient.known (c : JavaClient) : Known := ⟨c.level, c.world, c.position, c.inventory⟩

variable {advice : Advice} {msg : Json} {c : JavaClient} {β : Type} {g : Known → β} {I : Known → Prop} {cmd : String}

/-! ### Reading a message -/

/-- The text of a field. -/
def Json.text (msg : Json) (key : String) : Option String :=
  match msg.lookup key with
  | some (.str s) => some s
  | some (.num n) => some (toString n)
  | _ => none

/-- The text of a field that may be missing. -/
def Json.textOr (msg : Json) (key default : String) : Option String :=
  if msg.has key then msg.text key else some default

/-- The command of a message that `Player.handleResponse` is given. -/
def Json.answered (msg : Json) : Option String :=
  if msg.textOr "type" "response" = some "response" ∨ msg.textOr "type" "response" = some "cmd" then
    if msg.has "cmd" then msg.text "cmd" else msg.text "command"
  else none

private theorem getAsString_text (msg : Json) (key : String) : msg.getAsString key = orThrow (msg.text key) := by
  unfold Json.getAsString Json.text
  cases msg.lookup key with
  | none => rfl
  | some value => cases value <;> rfl

private theorem getOr_text (msg : Json) (key default : String) :
    msg.getOr key default = orThrow (msg.textOr key default) := by
  unfold Json.getOr Json.textOr
  split
  · exact getAsString_text msg key
  · rfl

/-- A computation that starts with reading a value. -/
private theorem orThrow_bind_keeps {α : Type} {I : JavaClient → Prop} {o : Option α} {f : α → ClientM Unit}
    (h : ∀ a, o = some a → Keeps I (f a)) : Keeps I (orThrow o >>= f) := by
  cases o with
  | none => exact fun _ hs => hs
  | some a => exact h a rfl

/-! ### Handlers -/

/-- What leaves what is known alone keeps what holds of it. -/
theorem Stateful.Leaves.keeps_known {α : Type} {x : ClientM α} (hx : Leaves JavaClient.known x) :
    Keeps (fun c => I c.known) x := by
  intro c hc
  rwa [hx.eq]

theorem addLife_known (life : Int) : Leaves JavaClient.known (addLife life) := fun _ => .modify fun _ h => h

theorem addCommands_known (cmds : List Command) : Leaves JavaClient.known (addCommands cmds) :=
  fun _ => .modify fun _ h => h

private theorem sendMsg_known (text : ClientMessage) : Leaves JavaClient.known (sendMsg text) := by
  intro b
  refine .modify fun c h => ?_
  split
  · exact h
  · exact h

private theorem sendCommand_known (cmd : Command) : Leaves JavaClient.known (sendCommand cmd) := by
  intro b
  refine .get_bind fun c h => ?_
  split
  · exact h
  · exact sendMsg_known _ _ _ h

private theorem sendLoop_known (queue : List Command) : Leaves JavaClient.known (sendLoop queue) := by
  intro b
  induction queue with
  | nil => exact .pure _
  | cons cmd rest ih =>
    refine .get_bind fun c h => ?_
    split
    · rw [finalState_modify_bind]
      exact Keeps.bind (sendCommand_known cmd b) (fun _ => ih) _ h
    · exact h

private theorem moved_keeps {move : ClientPosition → ClientPosition}
    (hI : ∀ k pos, k.position = some pos → I k → I { k with position := some (move pos) }) (status : String) :
    Keeps (fun c => I c.known) (moved status move) := by
  refine .ite (fun _ => .get_bind fun c hc => ?_) fun _ => .pure _
  cases hpos : c.position with
  | none => exact hc
  | some pos => exact hI c.known pos hpos hc

private theorem handleVoirResponse_keeps (hI : ∀ k w, I k → I { k with world := some w }) :
    Keeps (fun c => I c.known) (handleVoirResponse advice msg) := by
  unfold handleVoirResponse
  split
  · refine .bind .state fun c => .bind (orThrow_keeps _) fun world => .bind (orThrow_keeps _) fun pos => ?_
    refine .bind (orThrow_keeps _) fun seen => .bind (.modify fun c => hI c.known _) fun _ => ?_
    exact .bind (orThrow_keeps _) fun cmds => (addCommands_known cmds).keeps_known
  · exact .throw _

private theorem handleInventaireResponse_keeps (hI : ∀ k i, I k → I { k with inventory := i }) :
    Keeps (fun c => I c.known) (handleInventaireResponse msg) := by
  unfold handleInventaireResponse
  split
  · refine .forM fun entry _ => .bind (orThrow_keeps _) fun resource => ?_
    refine .bind (.modify fun c => hI c.known _) fun _ => ?_
    exact .bind .state fun c => .bind (orThrow_keeps _) fun _ => .pure _
  · exact .throw _

private theorem handlePrendResponse_keeps (hI : ∀ k i, I k → I { k with inventory := i }) :
    Keeps (fun c => I c.known) (handlePrendResponse msg) := by
  refine .bind getOr_keeps fun status => .bind getOr_keeps fun item => .ite (fun _ => ?_) fun _ => .pure _
  refine .bind (orThrow_keeps _) fun resource => .bind (.modify fun c => hI c.known _) fun _ => ?_
  refine .ite (fun _ => ?_) fun _ => .pure _
  exact .bind (addLife_known _).keeps_known fun _ => .modify fun _ h => h

private theorem handlePoseResponse_keeps (hI : ∀ k i, I k → I { k with inventory := i }) :
    Keeps (fun c => I c.known) (handlePoseResponse msg) := by
  refine .bind getOr_keeps fun status => .bind getOr_keeps fun item => .ite (fun _ => ?_) fun _ => .pure _
  exact .bind (orThrow_keeps _) fun resource => .modify fun c => hI c.known _

/-- An answer moves the position, or changes the world or the inventory, depending on its command. -/
theorem handleAnswer_keeps
    (hmove : cmd = "avance" ∨ cmd = "droite" ∨ cmd = "gauche" → ∀ k pos pos', k.position = some pos →
      pos' ∈ [pos.moveForward, pos.turnRight, pos.turnLeft] → I k → I { k with position := some pos' })
    (hvoir : cmd = "voir" → ∀ k w, I k → I { k with world := some w })
    (hstones : cmd = "inventaire" ∨ cmd = "prend" ∨ cmd = "pose" → ∀ k i, I k → I { k with inventory := i }) :
    Keeps (fun c => I c.known) (handleAnswer advice cmd msg) := by
  have hstatus : Keeps (fun c => I c.known) (do let _ ← msg.getOr "status" "ko") :=
    .bind getOr_keeps fun _ => .pure _
  unfold handleAnswer
  split
  · have hforward := hmove (by simp)
    exact .bind getOr_keeps fun status => moved_keeps (fun k pos hpos => hforward k pos _ hpos (by simp)) status
  · have hright := hmove (by simp)
    exact .bind getAsString_keeps fun status => moved_keeps (fun k pos hpos => hright k pos _ hpos (by simp)) status
  · have hleft := hmove (by simp)
    exact .bind getAsString_keeps fun status => moved_keeps (fun k pos hpos => hleft k pos _ hpos (by simp)) status
  · exact handleVoirResponse_keeps (hvoir rfl)
  · exact handleInventaireResponse_keeps (hstones (by simp))
  · exact handlePrendResponse_keeps (hstones (by simp))
  · exact handlePoseResponse_keeps (hstones (by simp))
  · exact hstatus
  · exact hstatus
  · exact hstatus
  · exact .ite (fun _ => .bind getAsInt_keeps fun _ => .pure _) fun _ => .pure _
  · exact .pure _

theorem handleAnswer_leaves
    (hmove : cmd = "avance" ∨ cmd = "droite" ∨ cmd = "gauche" → ∀ k pos, g { k with position := pos } = g k)
    (hvoir : cmd = "voir" → ∀ k w, g { k with world := w } = g k)
    (hstones : cmd = "inventaire" ∨ cmd = "prend" ∨ cmd = "pose" → ∀ k i, g { k with inventory := i } = g k) :
    Leaves (fun c => g c.known) (handleAnswer advice cmd msg) := by
  intro b
  refine handleAnswer_keeps (I := fun k => g k = b) (fun hcmd k pos pos' _ _ h => ?_) (fun hcmd k w h => ?_)
    fun hcmd k i h => ?_
  · exact (hmove hcmd k _).trans h
  · exact (hvoir hcmd k _).trans h
  · exact (hstones hcmd k _).trans h

/-! ### Messages -/

/-- What follows the handler of an answer. -/
private theorem playerHandleResponse_keeps
    (htype : msg.textOr "type" "response" = some "response" ∨ msg.textOr "type" "response" = some "cmd")
    (hanswer : ∀ cmd, msg.answered = some cmd → Keeps (fun c => I c.known) (handleAnswer advice cmd msg)) :
    Keeps (fun c => I c.known) (playerHandleResponse advice msg) := by
  have hdecide : ∀ cmd : String, Keeps (fun c => I c.known) (do
      if cmd ≠ "voir" ∧ (← get).pendingResponses = 0 then
        let _ ← orThrow (← get).world
        addCommands (← orThrow advice)) := by
    intro cmd
    refine .bind .state fun c => .ite (fun _ => ?_) fun _ => .pure _
    refine .bind .state fun c => .bind (orThrow_keeps _) fun _ => .bind (orThrow_keeps _) fun cmds => ?_
    exact (addCommands_known cmds).keeps_known
  unfold playerHandleResponse
  dsimp only
  refine .ite (fun hhas => ?_) fun hhas => ?_
  all_goals
    rw [getAsString_text]
    refine orThrow_bind_keeps fun cmd hcmd => ?_
    have hcmd : msg.answered = some cmd := by simp [Json.answered, htype, hhas, hcmd]
    refine .ite (fun _ => ?_) fun _ => ?_
    · unfold handleDieResponse
      exact .bind getOr_keeps fun arg => .ite (fun _ => .modify fun _ h => h) fun _ => .pure _
    · refine .bind (hanswer cmd hcmd) fun _ => .bind (orThrow_keeps _) fun type => ?_
      exact .bind (addLife_known _).keeps_known fun _ => hdecide cmd

/-- A message that is not the welcome keeps what the handler of its command keeps. -/
theorem handleResponse_keeps (hwelcome : msg.textOr "type" "response" ≠ some "welcome")
    (hanswer : ∀ cmd, msg.answered = some cmd → Keeps (fun c => I c.known) (handleAnswer advice cmd msg)) :
    Keeps (fun c => I c.known) (handleResponse advice msg) := by
  have hmsg : Keeps (fun c => I c.known) (handleMsg advice msg) := by
    unfold handleMsg
    rw [getOr_text]
    refine orThrow_bind_keeps fun type htype => ?_
    split
    · exact .bind getAsString_keeps fun _ => .bind .state fun c => (sendMsg_known _).keeps_known
    · exact absurd htype hwelcome
    · exact .bind (.modify fun _ h => h) fun _ => playerHandleResponse_keeps (Or.inl htype) hanswer
    · exact .bind getAsInt_keeps fun _ => .bind getAsString_keeps fun _ => .modify fun _ h => h
    · exact .bind getAsInt_keeps fun _ => .modify fun _ h => h
    · exact .bind getAsString_keeps fun _ => .pure _
    · exact .bind getOr_keeps fun _ => .modify fun _ h => h
    · exact playerHandleResponse_keeps (Or.inr htype) hanswer
    · exact .pure _
  exact .bind hmsg fun _ => .get_bind fun c h => (sendLoop_known _).keeps_known c h

/-- A message that is not the welcome changes what the handler of its command changes. -/
theorem handleResponse_leaves (hwelcome : msg.textOr "type" "response" ≠ some "welcome")
    (hanswer : ∀ cmd, msg.answered = some cmd → Leaves (fun c => g c.known) (handleAnswer advice cmd msg)) :
    Leaves (fun c => g c.known) (handleResponse advice msg) := fun b =>
  handleResponse_keeps (I := fun k => g k = b) hwelcome fun cmd hcmd => hanswer cmd hcmd b

/-- What is known after the handler of an answer is known after the message. -/
theorem handleResponse_answer (htype : msg.lookup "type" = some (.str "response"))
    (hcmd : msg.lookup "cmd" = some (.str cmd)) (hdie : cmd ≠ "-")
    (h : I (finalState (handleAnswer advice cmd msg) { c with pendingResponses := c.pendingResponses - 1 }).known) :
    I (finalState (handleResponse advice msg) c).known := by
  have hhas : msg.has "cmd" := by simp [Json.has, hcmd]
  have hmsg : handleMsg advice msg = handleResponseMsg advice msg := by
    unfold handleMsg
    rw [getOr_eq htype, pure_bind]
    rfl
  have hplayer : I (finalState (handleMsg advice msg) c).known := by
    rw [hmsg, handleResponseMsg, finalState_modify_bind]
    unfold playerHandleResponse
    rw [if_pos hhas, getAsString_eq hcmd, pure_bind]
    dsimp only
    rw [if_neg hdie]
    refine Keeps.after (I := fun c => I c.known) h fun _ => .bind (orThrow_keeps _) fun type => ?_
    refine .bind (addLife_known _).keeps_known fun _ => .bind .state fun c => .ite (fun _ => ?_) fun _ => .pure _
    refine .bind .state fun c => .bind (orThrow_keeps _) fun _ => .bind (orThrow_keeps _) fun cmds => ?_
    exact (addCommands_known cmds).keeps_known
  exact Keeps.after (I := fun c => I c.known) hplayer fun _ => .get_bind fun c hc =>
    (sendLoop_known _).keeps_known c hc

/-- The welcome gives the client a map of the size it names, and puts it at `(0, 0)`, facing north. -/
theorem handleResponse_welcomed (s : Server) (n : Int)
    (h : I { c.known with
      world := some ⟨s.mapX, s.mapY, fun _ _ _ => 0⟩
      position := some { worldWidth := s.mapX, worldHeight := s.mapY } }) :
    I (finalState (handleResponse advice (welcome s n)) c).known := by
  have hmsg : I (finalState (handleMsg advice (welcome s n)) c).known :=
    (sendCommand_known { type := .voir }).keeps_known _ h
  exact Keeps.after (I := fun c => I c.known) hmsg fun _ => .get_bind fun c hc =>
    (sendLoop_known _).keeps_known c hc

/-! ### Texts -/

section Texts

variable {earlier : List ClientMessage}

/-- What leaves the books alone has sent nothing. -/
theorem Uncounted.sent {x : ClientM Unit} (hx : Uncounted x) : Keeps (fun c => earlier <+: c.sent) x := by
  intro c h
  have hbook := hx c.book c rfl
  simp only [JavaClient.book, Prod.mk.injEq] at hbook
  rwa [hbook.2.2.2]

private theorem sendMsg_sent (text : ClientMessage) : Keeps (fun c => earlier <+: c.sent) (sendMsg text) := by
  refine .modify fun c h => ?_
  split
  · exact h.trans (List.prefix_append _ _)
  · exact h

private theorem sendCommand_sent (cmd : Command) : Keeps (fun c => earlier <+: c.sent) (sendCommand cmd) := by
  refine .get_bind fun c h => ?_
  split
  · exact h
  · exact sendMsg_sent _ _ h

private theorem sendLoop_sent (queue : List Command) : Keeps (fun c => earlier <+: c.sent) (sendLoop queue) := by
  induction queue with
  | nil => exact .pure _
  | cons cmd rest ih =>
    refine .get_bind fun c h => ?_
    split
    · rw [finalState_modify_bind]
      exact Keeps.bind (sendCommand_sent cmd) (fun _ => ih) _ h
    · exact h

private theorem playerHandleResponse_sent : Keeps (fun c => earlier <+: c.sent) (playerHandleResponse advice msg) := by
  unfold playerHandleResponse
  dsimp only
  refine .ite (fun _ => ?_) fun _ => ?_
  all_goals
    refine .bind getAsString_keeps fun cmd => .ite (fun _ => ?_) fun _ => ?_
    · unfold handleDieResponse
      exact .bind getOr_keeps fun arg => .ite (fun _ => .modify fun _ h => h) fun _ => .pure _
    · refine .bind (handleAnswer_uncounted cmd).sent fun _ => .bind (orThrow_keeps _) fun type => ?_
      refine .bind (addLife_uncounted _).sent fun _ => .bind .state fun c => .ite (fun _ => ?_) fun _ => .pure _
      refine .bind .state fun c => .bind (orThrow_keeps _) fun _ => .bind (orThrow_keeps _) fun cmds => ?_
      exact (addCommands_uncounted cmds).sent

/-- What is sent stays sent. -/
theorem handleResponse_sent : Keeps (fun c => earlier <+: c.sent) (handleResponse advice msg) := by
  have hmsg : Keeps (fun c => earlier <+: c.sent) (handleMsg advice msg) := by
    unfold handleMsg
    refine .bind getOr_keeps fun type => ?_
    split
    · exact .bind getAsString_keeps fun _ => .bind .state fun c => sendMsg_sent _
    · unfold handleWelcomeMsg
      refine .bind getAsInt_keeps fun _ => ?_
      split
      · refine .bind (orThrow_keeps _) fun x => .bind (orThrow_keeps _) fun y => ?_
        exact .bind (.modify fun _ h => h) fun _ => sendCommand_sent _
      · exact sendCommand_sent _
    · exact .bind (.modify fun _ h => h) fun _ => playerHandleResponse_sent
    · exact .bind getAsInt_keeps fun _ => .bind getAsString_keeps fun _ => .modify fun _ h => h
    · exact .bind getAsInt_keeps fun _ => .modify fun _ h => h
    · exact .bind getAsString_keeps fun _ => .pure _
    · exact .bind getOr_keeps fun _ => .modify fun _ h => h
    · exact playerHandleResponse_sent
    · exact .pure _
  exact .bind hmsg fun _ => .get_bind fun c h => sendLoop_sent _ c h

end Texts

end Zappy

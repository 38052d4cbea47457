import Zappy.Journeys
import Zappy.Accounts

/-!
# What the messages to a connection hold

A client takes over what the answers to `voir`, `inventaire`, `prend` and `pose` hold, and the size of the map from the
welcome.  Each step of the machine writes to a connection either none of these answers, or the one of the command that
it calls (`Writes`).
-/

namespace Zappy

open LinkedList Run

variable {cfg : Config} {K : Conn} {m m' : Machine} {act : MachineAction} {s s' s₁ s₂ : Server} {fd : Fd}
  {P : Json → Prop} {msg : Json}

/-! ### Asides -/

/-- The commands whose answers the client takes over. -/
def CommandType.informs : CommandType → Bool
  | .voir | .inventaire | .prend | .pose => true
  | _ => false

/-- The names of these commands. -/
def informing : List String := ["voir", "inventaire", "prend", "pose"]

/-- A response that is no answer to such a command. -/
def Aside (msg : Json) : Prop := ∃ cmd arg status, msg = response cmd arg status ∧ cmd ∉ informing

private theorem aside_response {cmd : String} (h : cmd ∉ informing) (arg status : Option String) :
    Aside (response cmd arg status) := ⟨cmd, arg, status, rfl, h⟩

/-- From `s` to `s'` only messages with `P` are sent. -/
def OnlySends (P : Json → Prop) (s s' : Server) : Prop := ∃ out, s'.outbox = s.outbox ++ out ∧ ∀ e ∈ out, P e.2

theorem OnlySends.of_outbox (h : s'.outbox = s.outbox) : OnlySends P s s' := ⟨[], by rw [h, List.append_nil], by simp⟩

theorem OnlySends.trans (h : OnlySends P s s₁) (h' : OnlySends P s₁ s₂) : OnlySends P s s₂ := by
  obtain ⟨out, hout, hP⟩ := h
  obtain ⟨out', hout', hP'⟩ := h'
  refine ⟨out ++ out', by rw [hout', hout, List.append_assoc], fun e he => ?_⟩
  rcases List.mem_append.1 he with he | he
  · exact hP e he
  · exact hP' e he

/-- One more message. -/
theorem OnlySends.send (h : OnlySends P s s₁) (fd : Fd) (hmsg : P msg) : OnlySends P s (s₁.send fd msg) := by
  refine h.trans ⟨[(fd, msg)], rfl, fun e he => ?_⟩
  rw [List.mem_singleton] at he
  rw [he]
  exact hmsg

theorem OnlySends.refl : OnlySends P s s := .of_outbox rfl

private theorem expulseTurn_asides {pl : Player} {pos : Position} {it : Addr} (h : expulseTurn pl pos s it = some s') :
    OnlySends Aside s s' := by
  simp only [expulseTurn, Option.map_eq_some_iff] at h
  obtain ⟨q, -, rfl⟩ := h
  split
  · exact .refl
  · have hmove : OnlySends Aside s (gameMovePlayer s it pos) := .of_outbox (movePlayer_same ..).outbox
    exact hmove.send _ (aside_response (by decide) _ _)

private theorem broadcastTurn_asides {pl : Player} {arg : Option Arg} {slot : Option Addr}
    (h : broadcastTurn cfg pl arg s slot = some s') : OnlySends Aside s s' := by
  unfold broadcastTurn at h
  split at h
  · cases h
    exact .refl
  · simp only [Option.bind_eq_some_iff, Option.map_eq_some_iff] at h
    obtain ⟨cl, -, q, -, rfl⟩ := h
    exact OnlySends.refl.send _ (aside_response (by decide) _ _)

private theorem commandIncantation_asides {p : Addr} {pl : Player} {origin : Conn}
    (h : commandIncantation cfg s p pl origin = some s') : OnlySends Aside s s' := by
  obtain rfl | ⟨-, rfl⟩ := commandIncantation_cases h
  · exact OnlySends.refl.send _ (aside_response (by decide) _ _)
  · have hpaid : OnlySends Aside s (payRitual s p pl) := .of_outbox rfl
    rcases queueCompletion_cases cfg (payRitual s p pl) p pl origin with ⟨-, h'⟩ | ⟨c, cl, -, -, s₂, h', h₂⟩
    · rw [h']
      exact hpaid
    · rw [h']
      have hqueued : OnlySends Aside (payRitual s p pl) s₂ := by
        rcases h₂ with rfl | ⟨b, -, rfl⟩
        · exact .of_outbox rfl
        · exact .of_outbox rfl
      exact (hpaid.trans hqueued).send _ (aside_response (by decide) _ _)

/-- A command whose answer the client does not take over. -/
private theorem runCommand_asides {fuel : Nat} {p : Addr} {pl : Player} {ev : Event} {c : CommandType}
    (hc : c.informs = false) (h : runCommand cfg fuel s p pl ev c = some s') : OnlySends Aside s s' := by
  cases c with
  | voir | inventaire | prend | pose => cases hc
  | avance =>
    cases h
    have hmove : OnlySends Aside s (gameMovePlayer s p (stepAhead s pl.pos pl.dir)) :=
      .of_outbox (movePlayer_same ..).outbox
    exact hmove.send _ (aside_response (by decide) _ _)
  | droite =>
    cases h
    have hturn : OnlySends Aside s (s.modPlayer p fun r => { r with dir := turnRight pl.dir }) := .of_outbox rfl
    exact hturn.send _ (aside_response (by decide) _ _)
  | gauche =>
    cases h
    have hturn : OnlySends Aside s (s.modPlayer p fun r => { r with dir := turnLeft pl.dir }) := .of_outbox rfl
    exact hturn.send _ (aside_response (by decide) _ _)
  | expulse =>
    simp only [runCommand, commandExpulse] at h
    split at h
    · cases h
      exact OnlySends.refl.send _ (aside_response (by decide) _ _)
    · simp only [Option.map_eq_some_iff] at h
      obtain ⟨s₁, h₁, rfl⟩ := h
      have hloop : OnlySends Aside s s₁ :=
        forEach_invariant (fun _ _ _ hturn hI => hI.trans (expulseTurn_asides hturn)) h₁ .refl
      exact hloop.send _ (aside_response (by decide) _ _)
  | broadcast =>
    simp only [runCommand, commandBroadcast, Option.map_eq_some_iff] at h
    obtain ⟨s₁, h₁, rfl⟩ := h
    have hloop : OnlySends Aside s s₁ :=
      foldlM_invariant (fun _ _ _ _ hturn hI => hI.trans (broadcastTurn_asides hturn)) h₁ .refl
    exact hloop.send _ (aside_response (by decide) _ _)
  | incantation => exact commandIncantation_asides h
  | fork =>
    cases h
    exact OnlySends.refl.send _ (aside_response (by decide) _ _)
  | connectNbr =>
    simp only [runCommand, commandConnectNbr, Option.map_eq_some_iff] at h
    obtain ⟨n, -, rfl⟩ := h
    exact OnlySends.refl.send _ (aside_response (by decide) _ _)

private theorem commandRealIncantation_asides {p : Addr} {pl : Player} {arg : Option Arg}
    (h : commandRealIncantation s p pl arg = some s') : OnlySends Aside s s' := by
  obtain ⟨a, -, rfl | ⟨-, -, s₁, h₁, rfl⟩⟩ := commandRealIncantation_cases h
  · exact OnlySends.refl.send _ (aside_response (by decide) _ _)
  · have hloop : OnlySends Aside s s₁ := by
      refine forEach_invariant (I := fun t => OnlySends Aside s t) (fun t q t' hturn hI => ?_) h₁ .refl
      simp only [levelUpTurn, Option.map_eq_some_iff] at hturn
      obtain ⟨r, -, rfl⟩ := hturn
      split
      · have hlevel : OnlySends Aside t (t.modPlayer q fun r => { r with level := r.level + 1 }) := .of_outbox rfl
        exact (hI.trans hlevel).send _ (aside_response (by decide) _ _)
      · exact hI
    have hbook : OnlySends Aside s (s₁.record (.completed p pl.level)) := hloop.trans (.of_outbox rfl)
    exact hbook.send _ (aside_response (by decide) _ _)

private theorem gamePlayerDie_asides {c : Addr} {cl : Client} {pl : Player} (hfood : pl.inv.nourriture ≤ 0) :
    OnlySends Aside s (gamePlayerDie cfg s c cl pl).2 := by
  have hburied : ∀ t : Server, t.outbox = s.outbox → OnlySends Aside s (buried t cl pl) := by
    intro t ht
    have hremoved : OnlySends Aside s ((freePlayer cl.player (gameRemovePlayerFromTile t cl.player)).record
        (.removed cl.player pl.inv)) := .of_outbox ((removePlayer_same ..).outbox.trans ht)
    exact hremoved.send _ (aside_response (by decide) _ _)
  rcases gamePlayerDie_cases cfg s c cl hfood with ⟨-, h⟩ | ⟨s₁, h₁, ⟨-, h⟩ | ⟨s₂, h₂, hend⟩⟩
  · rw [h]
    exact .refl
  · obtain ⟨i, -, rfl⟩ := removeClientFromServer_some h₁
    rw [h]
    exact .of_outbox rfl
  · have hgone : s₂.outbox = s.outbox := by
      obtain ⟨i, -, rfl⟩ := removeClientFromServer_some h₁
      obtain ⟨t, -, -, rfl⟩ := teamRemovePlayerFromTeam_some h₂
      rfl
    rcases hend with ⟨-, h⟩ | ⟨-, h⟩
    · rw [h]
      exact hburied s₂ hgone
    · rw [h]
      refine (hburied s₂ hgone).trans (.of_outbox ?_)
      change (releaseArgs cl.eventBuffer _).outbox = _
      rw [releaseArgs_eq]

/-! ### Calls -/

/-- The command function that a step of the machine calls, with the address of the player. -/
def Machine.calls (m : Machine) : MachineAction → Option (CommandType × Addr)
  | .playSlot chance =>
    match m.phase with
    | .play i => (executed m.server (.playSlot chance i)).bind fun ev =>
      match ev.callback with
      | some (.command type) => ev.data.map fun p => (type, p)
      | _ => none
    | _ => none
  | _ => none

/-- A turn that sends asides only, or calls a command whose answer the client takes over. -/
private theorem gamePlaySlot_informs {chance : Chance} {i : Nat} (h : gamePlaySlot cfg chance s i = some s') :
    OnlySends Aside s s' ∨ ∃ ev c b type p pl, executed s (.playSlot chance i) = some ev ∧
      ev.callback = some (.command type) ∧ ev.data = some p ∧ type.informs = true ∧ s.playerHeap p = some pl ∧
      ∃ s₂, runCommand cfg chance.fuel (s.setClientBuffer c b) p pl ev type = some s₂ ∧
        s'.playerHeap = s₂.playerHeap ∧ s'.outbox = s₂.outbox := by
  rcases gamePlaySlot_executed h with ⟨hnone, -⟩ | ⟨ev, c, b, s₂, hev, hcall, hheap, -, hout⟩
  · refine Or.inl ?_
    cases gamePlaySlot_cases h with
    | empty | eats | waits => exact .of_outbox rfl
    | dies hat hdead hfood => exact gamePlayerDie_asides hfood
    | plays hat halive hdue => rw [hat.executed_eq, if_pos ⟨halive, hdue⟩] at hnone; cases hnone
  · have haside : OnlySends Aside (s.setClientBuffer c b) s₂ → OnlySends Aside s s' := by
      rintro ⟨out, hout₂, hP⟩
      exact ⟨out, hout.trans hout₂, hP⟩
    unfold runCallback at hcall
    split at hcall
    · cases hcall
      exact Or.inl (haside .refl)
    · cases hcall
      exact Or.inl (haside (.of_outbox (gameSpawnResources_same ..).2.2.2))
    · rename_i type htype
      simp only [Option.bind_eq_some_iff] at hcall
      obtain ⟨p, hdata, pl, hpl, hrun⟩ := hcall
      cases hinforms : type.informs with
      | false => exact Or.inl (haside (runCommand_asides hinforms hrun))
      | true => exact Or.inr ⟨ev, c, b, type, p, pl, hev, htype, hdata, hinforms, hpl, s₂, hrun, hheap, hout⟩
    · simp only [Option.bind_eq_some_iff] at hcall
      obtain ⟨p, -, pl, -, hrun⟩ := hcall
      exact Or.inl (haside (commandRealIncantation_asides hrun))

/-! ### The wire -/

/-- A message that holds no answer which the client takes over; the welcome gives the size of the map. -/
inductive Idle (width height : Nat) (msg : Json) : Prop
  | aside (h : Aside msg)
  | plain (h : msg.kind = .bienvenue ∨ msg.kind = .error ∨ msg.kind = .remark)
  | welcome (s : Server) (n : Int) (hx : s.mapX = width) (hy : s.mapY = height) (h : msg = Zappy.welcome s n)

/-- What is sent about a message that is received. -/
theorem Outcome.idle {conn : Conn} {draw : StartDraw} {text : Option ClientMessage}
    (h : Outcome cfg s conn fd draw text s') : OnlySends (Idle s.mapX s.mapY) s s' := by
  induction h with
  | ignored => exact .refl
  | @command msg cmd htext htype =>
    refine .of_outbox ?_
    unfold gameExecuteCommand
    split
    · rfl
    · split
      · rfl
      · cases msg.arg <;> rfl
  | @login msg teamName s₁ n htext htype hjoin hreg =>
    obtain ⟨teamId, t, -, -, -, hentered⟩ := gameRegisterPlayer_success (congrArg Prod.fst hreg)
    rw [hreg] at hentered
    obtain rfl : s₁ = enterGame cfg s conn fd teamId draw := hentered
    have hsame : (enterGame cfg s conn fd teamId draw).outbox = s.outbox ∧
        (enterGame cfg s conn fd teamId draw).mapX = s.mapX ∧
        (enterGame cfg s conn fd teamId draw).mapY = s.mapY := by
      rw [enterGame_eq, onTile, (addPlayer_same _ _ _).rest]
      exact ⟨rfl, rfl, rfl⟩
    exact (OnlySends.of_outbox hsame.1).send _ (.welcome _ n hsame.2.1 hsame.2.2 rfl)
  | report _ type about htype ih =>
    refine ih.send _ (.plain ?_)
    rcases htype with rfl | rfl | rfl
    · exact Or.inr (Or.inl rfl)
    · exact Or.inr (Or.inr rfl)
    · exact Or.inr (Or.inr rfl)

/-- What a step writes to the connection `K`. -/
inductive Writes (cfg : Config) (K : Conn) (m : Machine) (act : MachineAction) (m' : Machine) : Prop
  | idle (new : List Json) (hwire : m'.wireTo K = m.wireTo K ++ new)
      (hidle : ∀ msg ∈ new, Idle m.server.mapX m.server.mapY msg)
  | answer {type : CommandType} {p : Addr} {pl : Player} {c : Addr} {b : EventBuffer} {ev : Event} {fuel : Nat}
      {s₂ : Server} (hcalls : m.calls act = some (type, p)) (hinforms : type.informs = true)
      (hpl : m.server.playerHeap p = some pl)
      (hrun : runCommand cfg fuel (m.server.setClientBuffer c b) p pl ev type = some s₂)
      (hheap : m'.server.playerHeap = s₂.playerHeap)
      (hwire : m'.wireTo K = m.wireTo K ++ toConn m.session K s₂.outbox)

private theorem toConn_forall {session : Fd → Option Conn} (hs : s.outbox = []) (h : OnlySends P s s') :
    ∀ msg ∈ toConn session K s'.outbox, P msg := by
  obtain ⟨out, hout, hP⟩ := h
  rw [hs, List.nil_append] at hout
  intro msg hmsg
  obtain ⟨e, he, -, rfl⟩ := mem_toConn hmsg
  exact hP e (hout ▸ he)

theorem Writes.still (hwire : m'.wire = m.wire) : Writes cfg K m act m' := by
  refine .idle [] ?_ (by simp)
  rw [Machine.wireTo, hwire, List.append_nil]
  rfl

/-- Between the steps nothing is left to deliver. -/
theorem machineStep_outbox (hout : m.server.outbox = [])
    (h : machineStep cfg m act = some m') : m'.server.outbox = [] := by
  cases machineStep_move h with
  | hangUp | remove => exact (gameKillPlayer_same _ _).2.2.trans hout
  | misbehaved => exact (gameKillPlayer_same _ _).2.2
  | welcomed | message | playSlot | playServer => rfl
  | _ => exact hout

theorem machineStep_writes (hwf : BuffersWF m.server) (hout : m.server.outbox = []) (K : Conn)
    (h : machineStep cfg m act = some m') : Writes cfg K m act m' := by
  have hmessage : ∀ {fd k draw text ret s₁}, handleClientMessage cfg m.server k fd draw text = some (ret, s₁) →
      m'.wireTo K = m.wireTo K ++ toConn m.session K s₁.outbox → Writes cfg K m act m' := by
    intro fd k draw text ret s₁ hmsg hwire
    exact .idle _ hwire (toConn_forall hout (handleClientMessage_outcome hmsg).idle)
  cases machineStep_move h with
  | @welcomed fd k rest hphase hq howner =>
    have hwire := wireTo_deliver { m with
      finished := rest
      session := Function.update m.session fd (some k)
      server := { m.server with maxFd := max m.server.maxFd fd }.createJsonResponse fd "bienvenue"
        "Whoa! Knock knock, whos there?" none } K
    refine .idle _ hwire (toConn_forall (s := m.server) hout ?_)
    exact (OnlySends.of_outbox rfl).send _ (.plain (Or.inl rfl))
  | @message fd rest text draw k s₁ hphase hheard hmsg => exact hmessage hmsg (wireTo_deliver _ K)
  | @misbehaved fd rest text draw k s₁ hphase hheard hmsg => exact hmessage hmsg (wireTo_deliver _ K)
  | @playSlot chance i s₁ hphase hi hplay =>
    have hwire := wireTo_deliver { m with server := s₁, phase := .play (i + 1) } K
    rcases gamePlaySlot_informs hplay with hasides |
      ⟨ev, c, b, type, p, pl, hev, htype, hdata, hinforms, hpl, s₂, hrun, hheap, hout₂⟩
    · exact .idle _ hwire fun msg hmsg => .aside (toConn_forall hout hasides msg hmsg)
    · have hcalls : m.calls (.playSlot chance) = some (type, p) := by
        simp [Machine.calls, hphase, hev, htype, hdata]
      dsimp only at hwire
      rw [hout₂] at hwire
      exact .answer hcalls hinforms hpl hrun hheap hwire
  | @playServer chance s₁ hphase hplay =>
    refine .still ?_
    have hnone : s₁.outbox = [] := (processServer_same hwf hplay).2.2.2.trans hout
    simp [Machine.deliver, hnone]
  | _ => exact .still rfl

end Zappy

import Zappy.Sessions
import Zappy.Notices

/-!
# Answers and notices

What kind of message the server sends, and how many of each kind.  A command has one answer; `response` is also the
type of the notices that come in between.  A turn sends no more answers than it takes events out of the buffer of its
client (`Turn`), and a message that is handled sends none (`Receipt`).
-/

namespace Zappy

open LinkedList Run Slots

/-! ### Kinds of messages -/

inductive Kind where
  | bienvenue | welcome | answer
  /-- A response that answers no command: `message`, `deplacement`, and the two notices of an incantation. -/
  | notice
  | farewell | error | remark | alien
  deriving DecidableEq, Repr

/-- The kind of a message of type `response`. -/
def responseKind (cmd arg status : Option JsonValue) : Kind :=
  match cmd with
  | some (.str cmd) =>
    if cmd = "message" ∨ cmd = "deplacement" then .notice
    else if cmd = "-" then if arg = some (.str "die") then .farewell else .alien
    else if cmd = "incantation" ∧ (status = some (.str "in_progress") ∨ status = some (.str "Level up!")) then .notice
    else .answer
  | _ => .alien

/-- The kind of a message; `alien` is what the server never sends. -/
def Json.kind (msg : Json) : Kind :=
  match msg.lookup "type" with
  | some (.str "bienvenue") => .bienvenue
  | some (.str "welcome") => .welcome
  | some (.str "response") => responseKind (msg.lookup "cmd") (msg.lookup "arg") (msg.lookup "status")
  | some (.str "error") => if msg.has "arg" then .alien else .error
  | some (.str "ok") => .remark
  | some (.str "ko") => .remark
  | _ => .alien

theorem kind_response (cmd : String) (arg status : Option String) :
    (response cmd arg status).kind =
      responseKind (some (.str cmd)) (arg.map JsonValue.str) (status.map JsonValue.str) := by
  cases arg <;> cases status <;> rfl

/-- The number of messages of a kind. -/
def countKind (k : Kind) (msgs : List Json) : Nat := msgs.countP fun msg => msg.kind = k

@[simp] theorem countKind_nil (k : Kind) : countKind k [] = 0 := rfl

@[simp] theorem countKind_append (k : Kind) (msgs more : List Json) :
    countKind k (msgs ++ more) = countKind k msgs + countKind k more := List.countP_append

theorem countKind_singleton (k : Kind) (msg : Json) : countKind k [msg] = if msg.kind = k then 1 else 0 := by
  simp [countKind, List.countP_cons]

/-! ### What a callback sends -/

variable {cfg : Config} {s s' s₁ s₂ : Server} {fd : Fd}

/-- From `s` to `s'` notices and farewells are sent, and at most `n` answers, all of them to `fd`. -/
def Sends (fd : Fd) (n : Nat) (s s' : Server) : Prop :=
  ∃ out, s'.outbox = s.outbox ++ out ∧ countKind .answer (out.map Prod.snd) ≤ n ∧
    ∀ e ∈ out, e.2.kind = .notice ∨ e.2.kind = .farewell ∨ (e.2.kind = .answer ∧ e.1 = fd)

theorem Sends.of_outbox (h : s'.outbox = s.outbox) : Sends fd 0 s s' :=
  ⟨[], by rw [h, List.append_nil], Nat.le_refl _, by simp⟩

theorem Sends.trans {m n : Nat} (h : Sends fd m s s₁) (h' : Sends fd n s₁ s₂) : Sends fd (m + n) s s₂ := by
  obtain ⟨out, hout, hm, hkinds⟩ := h
  obtain ⟨out', hout', hn, hkinds'⟩ := h'
  refine ⟨out ++ out', by rw [hout', hout, List.append_assoc], ?_, ?_⟩
  · rw [List.map_append, countKind_append]
    exact Nat.add_le_add hm hn
  · intro e he
    rcases List.mem_append.1 he with he | he
    · exact hkinds e he
    · exact hkinds' e he

theorem Sends.notice (fd' : Fd) {msg : Json} (h : msg.kind = .notice) : Sends fd 0 s (s.send fd' msg) := by
  refine ⟨[(fd', msg)], rfl, ?_, ?_⟩
  · simp [countKind_singleton, h]
  · intro e he
    rw [List.mem_singleton] at he
    rw [he]
    exact Or.inl h

theorem Sends.farewell (fd' : Fd) {msg : Json} (h : msg.kind = .farewell) : Sends fd 0 s (s.send fd' msg) := by
  refine ⟨[(fd', msg)], rfl, ?_, ?_⟩
  · simp [countKind_singleton, h]
  · intro e he
    rw [List.mem_singleton] at he
    rw [he]
    exact Or.inr (Or.inl h)

theorem Sends.answer {msg : Json} (h : msg.kind = .answer) : Sends fd 1 s (s.send fd msg) := by
  refine ⟨[(fd, msg)], rfl, ?_, ?_⟩
  · simp [countKind_singleton, h]
  · intro e he
    rw [List.mem_singleton] at he
    rw [he]
    exact Or.inr (Or.inr ⟨h, rfl⟩)

/-- An answer after notices. -/
private theorem Sends.conclude {msg : Json} (h : Sends fd 0 s s₁) (hmsg : msg.kind = .answer) :
    Sends fd 1 s (s₁.send fd msg) := h.trans (.answer hmsg)

theorem expulseTurn_sends {pl : Player} {pos : Position} {it : Addr} (h : expulseTurn pl pos s it = some s') :
    Sends fd 0 s s' := by
  simp only [expulseTurn, Option.map_eq_some_iff] at h
  obtain ⟨q, -, rfl⟩ := h
  split
  · exact .of_outbox rfl
  · have hmove : Sends fd 0 s (gameMovePlayer s it pos) := .of_outbox (movePlayer_same ..).outbox
    exact hmove.trans (.notice _ (kind_response _ _ _))

theorem broadcastTurn_sends {pl : Player} {arg : Option Arg} {slot : Option Addr}
    (h : broadcastTurn cfg pl arg s slot = some s') : Sends fd 0 s s' := by
  unfold broadcastTurn at h
  split at h
  · cases h
    exact .of_outbox rfl
  · simp only [Option.bind_eq_some_iff, Option.map_eq_some_iff] at h
    obtain ⟨cl, -, q, -, rfl⟩ := h
    exact .notice _ (kind_response _ _ _)

private theorem commandTransfer_sends {cmd : String} {add : Int} {p : Addr} {pl : Player} {arg : Option Arg}
    (hcmd : ∀ arg status, (response cmd arg status).kind = .answer) :
    Sends pl.id 1 s (commandTransfer cmd add s p pl arg) := by
  unfold commandTransfer
  split
  · exact .answer (hcmd _ _)
  · split
    · exact .answer (hcmd _ _)
    · split
      · exact .answer (hcmd _ _)
      · rename_i s₁ hmove
        have hitems : s₁.outbox = s.outbox := by
          unfold helperItemsToTiles at hmove
          split at hmove
          · split at hmove <;> cases hmove
            rfl
          · split at hmove
            · split at hmove <;> cases hmove
              rfl
            · cases hmove
              rfl
        exact (Sends.of_outbox hitems).conclude (hcmd _ _)

/-- A command other than an incantation has one answer, after its notices. -/
private theorem runCommand_sends {fuel : Nat} {p : Addr} {pl : Player} {ev : Event} {c : CommandType}
    (hc : c ≠ .incantation) (h : runCommand cfg fuel s p pl ev c = some s') : Sends pl.id 1 s s' := by
  cases c with
  | incantation => exact absurd rfl hc
  | avance =>
    cases h
    have hmove : Sends pl.id 0 s (gameMovePlayer s p (stepAhead s pl.pos pl.dir)) :=
      .of_outbox (movePlayer_same ..).outbox
    exact hmove.conclude (kind_response _ _ _)
  | droite =>
    cases h
    have hturn : Sends pl.id 0 s (s.modPlayer p fun r => { r with dir := turnRight pl.dir }) := .of_outbox rfl
    exact hturn.conclude (kind_response _ _ _)
  | gauche =>
    cases h
    have hturn : Sends pl.id 0 s (s.modPlayer p fun r => { r with dir := turnLeft pl.dir }) := .of_outbox rfl
    exact hturn.conclude (kind_response _ _ _)
  | voir =>
    simp only [runCommand, commandVoir, Option.map_eq_some_iff] at h
    obtain ⟨vision, -, rfl⟩ := h
    exact .answer rfl
  | inventaire =>
    cases h
    exact .answer rfl
  | prend =>
    cases h
    exact commandTransfer_sends fun _ _ => kind_response _ _ _
  | pose =>
    cases h
    exact commandTransfer_sends fun _ _ => kind_response _ _ _
  | expulse =>
    simp only [runCommand, commandExpulse] at h
    split at h
    · cases h
      exact .answer (kind_response _ _ _)
    · simp only [Option.map_eq_some_iff] at h
      obtain ⟨s₁, h₁, rfl⟩ := h
      have hloop : Sends pl.id 0 s s₁ :=
        forEach_invariant (fun _ _ _ hturn hI => hI.trans (expulseTurn_sends hturn)) h₁ (.of_outbox rfl)
      exact hloop.conclude (kind_response _ _ _)
  | broadcast =>
    simp only [runCommand, commandBroadcast, Option.map_eq_some_iff] at h
    obtain ⟨s₁, h₁, rfl⟩ := h
    have hloop : Sends pl.id 0 s s₁ :=
      Run.foldlM_invariant (fun _ _ _ _ hturn hI => hI.trans (broadcastTurn_sends hturn)) h₁ (.of_outbox rfl)
    exact hloop.conclude (kind_response _ _ _)
  | fork =>
    cases h
    exact .answer (kind_response _ _ _)
  | connectNbr =>
    simp only [runCommand, commandConnectNbr, Option.map_eq_some_iff] at h
    obtain ⟨n, -, rfl⟩ := h
    exact .answer (kind_response _ _ _)

/-- The completion of an incantation has one answer, after the notices to those who rise. -/
private theorem commandRealIncantation_sends {p : Addr} {pl : Player} {arg : Option Arg}
    (h : commandRealIncantation s p pl arg = some s') : Sends pl.id 1 s s' := by
  obtain ⟨a, -, rfl | ⟨-, -, s₁, h₁, rfl⟩⟩ := commandRealIncantation_cases h
  · exact .answer (kind_response _ _ _)
  · have hloop : Sends pl.id 0 s s₁ := by
      refine forEach_invariant (I := fun t => Sends pl.id 0 s t) (fun t q t' hturn hI => ?_) h₁ (.of_outbox rfl)
      simp only [levelUpTurn, Option.map_eq_some_iff] at hturn
      obtain ⟨r, -, rfl⟩ := hturn
      split
      · have hlevel : Sends pl.id 0 t (t.modPlayer q fun r => { r with level := r.level + 1 }) := .of_outbox rfl
        exact hI.trans (hlevel.trans (.notice _ (kind_response _ _ _)))
      · exact hI
    have hbook : Sends pl.id 0 s (s₁.record (.completed p pl.level)) := hloop.trans (.of_outbox rfl)
    exact hbook.conclude (kind_response _ _ _)

/-- The buffer of the first client on `fd` got an event in front, and all else about the clients is the same. -/
def FrontAdded (fd : Fd) (s s' : Server) : Prop :=
  ∃ c cl b delay cb data arg origin, s.gameGetClientFromFd fd = some c ∧ s.clientHeap c = some cl ∧
    timeApiScheduleClientEventFront s.now cl.eventBuffer delay cb data arg origin = some b ∧
    s'.clientHeap = Function.update s.clientHeap c (some { cl with eventBuffer := b })

/-- An incantation is answered, or it puts its completion in front of the buffer and sends a notice only. -/
private theorem commandIncantation_sends {p : Addr} {pl : Player} {origin : Conn}
    (h : commandIncantation cfg s p pl origin = some s') :
    (s'.clientHeap = s.clientHeap ∧ Sends pl.id 1 s s') ∨
      ((s'.clientHeap = s.clientHeap ∨ FrontAdded pl.id s s') ∧ Sends pl.id 0 s s') := by
  obtain rfl | ⟨-, rfl⟩ := commandIncantation_cases h
  · exact Or.inl ⟨rfl, .answer (kind_response _ _ _)⟩
  · refine Or.inr ?_
    have hpay : Sends pl.id 0 s (payRitual s p pl) := .of_outbox rfl
    rcases queueCompletion_cases cfg (payRitual s p pl) p pl origin with
      ⟨-, h'⟩ | ⟨c, cl, hc, hcl, s₂, h', h₂⟩
    · rw [h']
      exact ⟨Or.inl rfl, hpay⟩
    · rw [h']
      rcases h₂ with rfl | ⟨b, hb, rfl⟩
      · exact ⟨Or.inl rfl, .trans (.of_outbox rfl) (.notice _ (kind_response _ _ _))⟩
      · refine ⟨Or.inr ⟨c, cl, b, _, _, _, _, _, hc, hcl, hb, ?_⟩, ?_⟩
        · rw [setClientBuffer_eq (s := ((payRitual s p pl).strdup _).2) hcl]
          rfl
        · exact .trans (.of_outbox rfl) (.notice _ (kind_response _ _ _))

/-- What a callback does to the buffers and sends, for an event about the player `pl`. -/
private theorem runCallback_sends {chance : Chance} {ev : Event} {p : Addr} {pl : Player} (hdata : ev.data = some p)
    (hpl : s.playerHeap p = some pl) (h : runCallback cfg chance ev s = some s') :
    (s'.clientHeap = s.clientHeap ∧ Sends pl.id 1 s s') ∨
      ((s'.clientHeap = s.clientHeap ∨ FrontAdded pl.id s s') ∧ Sends pl.id 0 s s') := by
  unfold runCallback at h
  split at h
  · cases h
    exact Or.inr ⟨Or.inl rfl, .of_outbox rfl⟩
  · cases h
    obtain ⟨hheap, -, -, hout⟩ := gameSpawnResources_same cfg chance.counts s ev
    exact Or.inr ⟨Or.inl hheap, .of_outbox hout⟩
  · rename_i c _
    rw [hdata, Option.bind_some, hpl, Option.bind_some] at h
    by_cases hc : c = .incantation
    · rw [hc] at h
      exact commandIncantation_sends h
    · have hctl := runCommand_control hc h
      exact Or.inl ⟨by rw [hctl.rest], runCommand_sends hc h⟩
  · rw [hdata, Option.bind_some, hpl, Option.bind_some] at h
    exact Or.inl ⟨by rw [commandRealIncantation_control h], commandRealIncantation_sends h⟩

/-! ### A turn -/

/-- The events of a client after a callback: those that were queued, and a completion in front of them. -/
private theorem processClient_sends {chance : Chance} {c : Addr} {cl : Client} (h : GameSessions s)
    (hc : LiveClient s c cl) (hrun : processClient cfg chance c s = some s') :
    ∃ n cl', Sends cl.socketFd n s s' ∧ s'.clientHeap = Function.update s.clientHeap c (some cl') ∧
      cl'.identity = cl.identity ∧ n + cl'.eventBuffer.count ≤ cl.eventBuffer.count := by
  rcases processClient_cases (h.wf.client c cl hc.heap) hc.heap hrun with
    rfl | ⟨ev, hqueued, hcount, -, s₂, hcall, hend⟩
  · refine ⟨0, cl, .of_outbox rfl, ?_, rfl, by omega⟩
    rw [← hc.heap, Function.update_eq_self]
  obtain ⟨cl₀, pl, hcl₀, hpl, hid⟩ := h.reg.client_heap hc.live
  obtain rfl := Option.some.inj (hc.heap.symm.trans hcl₀)
  have hdata : ev.data = some cl.player := (h.events c cl hc ev (by rw [hqueued]; exact List.mem_cons_self)).1
  have hpop : (s.setClientBuffer c cl.eventBuffer.pop).clientHeap =
      Function.update s.clientHeap c (some { cl with eventBuffer := cl.eventBuffer.pop }) := by
    rw [setClientBuffer_eq hc.heap]
  have hpopped : (s.setClientBuffer c cl.eventBuffer.pop).outbox = s.outbox := by
    rw [setClientBuffer_eq hc.heap]
  have hpl' : (s.setClientBuffer c cl.eventBuffer.pop).playerHeap cl.player = some pl := by
    rw [setClientBuffer_eq hc.heap]
    exact hpl
  -- the state after the callback, before the argument is released
  have hcalled : ∃ n cl', Sends cl.socketFd n s s₂ ∧ s₂.clientHeap = Function.update s.clientHeap c (some cl') ∧
      cl'.identity = cl.identity ∧ n + cl'.eventBuffer.count ≤ cl.eventBuffer.count := by
    have hstart : Sends cl.socketFd 0 s (s.setClientBuffer c cl.eventBuffer.pop) := .of_outbox hpopped
    have hone : cl.eventBuffer.pop.count + 1 = cl.eventBuffer.count := Nat.sub_add_cancel hcount
    rcases runCallback_sends hdata hpl' hcall with ⟨hheap, hsends⟩ | ⟨hheap | hfront, hsends⟩
    · rw [hid] at hsends
      refine ⟨0 + 1, { cl with eventBuffer := cl.eventBuffer.pop }, hstart.trans hsends, hheap.trans hpop, rfl, ?_⟩
      dsimp only
      omega
    · rw [hid] at hsends
      refine ⟨0 + 0, { cl with eventBuffer := cl.eventBuffer.pop }, hstart.trans hsends, hheap.trans hpop, rfl, ?_⟩
      dsimp only
      omega
    · rw [hid] at hsends
      obtain ⟨d, dl, b, delay, cb, data, arg, origin, hd, hdl, hb, hheap⟩ := hfront
      have hlive : LiveClient (s.setClientBuffer c cl.eventBuffer.pop) c
          { cl with eventBuffer := cl.eventBuffer.pop } :=
        ⟨hc.live, by rw [hpop, Function.update_self]⟩
      -- the completion goes to the buffer of the client itself, since descriptors are not shared
      have hdc : d = c := (h.unique.setBuffer _ hc.heap).lookup_own (h.reg.setBuffer _ hc.heap) hlive hpl' hd
      subst hdc
      obtain rfl := Option.some.inj (hlive.heap.symm.trans hdl)
      have hwf := EventBuffer.pop_wf (h.wf.client d cl hc.heap) hcount
      obtain ⟨-, -, hadded, -⟩ := scheduleFront_spec hwf hb
      refine ⟨0 + 0, { cl with eventBuffer := b }, hstart.trans hsends, ?_, rfl, ?_⟩
      · rw [hheap, hpop, Function.update_idem]
      · dsimp only at hadded ⊢
        omega
  rcases hend with rfl | ⟨addr, cl', j, hcl', -, -, rfl⟩
  · exact hcalled
  · obtain ⟨n, cl₁, hsends, hheap, hident, hle⟩ := hcalled
    have hcl₁ : cl₁ = cl' := by
      rw [hheap, Function.update_self] at hcl'
      exact Option.some.inj hcl'
    subst hcl₁
    refine ⟨n, { cl₁ with eventBuffer := cl₁.eventBuffer.clearArg j }, ?_, ?_, hident, hle⟩
    · refine hsends.trans (n := 0) (.of_outbox ?_)
      rw [setClientBuffer_eq hcl']
      rfl
    · rw [setClientBuffer_eq hcl']
      change Function.update s₂.clientHeap c _ = _
      rw [hheap, Function.update_idem]

/-- What a turn sends, and what it does to the clients. -/
inductive Turn (s s' : Server) : Prop
  | quiet (fd : Fd) (hsends : Sends fd 0 s s') (hkeep : ∀ d dl, LiveClient s' d dl → LiveClient s d dl) : Turn s s'
  | served {c : Addr} {cl cl' : Client} {n : Nat} (hc : LiveClient s c cl) (hsends : Sends cl.socketFd n s s')
      (hident : cl'.identity = cl.identity) (hle : n + cl'.eventBuffer.count ≤ cl.eventBuffer.count)
      (hkeep : ∀ d dl, LiveClient s' d dl → (d = c ∧ dl = cl') ∨ (d ≠ c ∧ LiveClient s d dl)) : Turn s s'

theorem gamePlayerDie_sends {c : Addr} {cl : Client} {pl : Player} (hfood : pl.inv.nourriture ≤ 0) :
    Sends fd 0 s (gamePlayerDie cfg s c cl pl).2 := by
  have hslot : ∀ {t}, removeClientFromServer s c = some t → t.outbox = s.outbox := by
    intro t ht
    simp only [removeClientFromServer, Option.map_eq_some_iff] at ht
    obtain ⟨i, -, rfl⟩ := ht
    rfl
  have hteam : ∀ {t t'}, teamRemovePlayerFromTeam t pl = some t' → t'.outbox = t.outbox := by
    intro t t' ht
    simp only [teamRemovePlayerFromTeam, Option.bind_eq_some_iff] at ht
    obtain ⟨team, -, ht⟩ := ht
    split at ht
    · cases ht
    · cases ht
      rfl
  have hburied : ∀ t, Sends fd 0 t (buried t cl pl) := by
    intro t
    have hremoved : Sends fd 0 t ((freePlayer cl.player (gameRemovePlayerFromTile t cl.player)).record
        (.removed cl.player pl.inv)) := .of_outbox (removePlayer_same ..).outbox
    exact hremoved.trans (.farewell _ (kind_response _ _ _))
  rcases gamePlayerDie_cases cfg s c cl hfood with ⟨-, h⟩ | ⟨s₁, h₁, ⟨-, h⟩ | ⟨s₂, h₂, ⟨-, h⟩ | ⟨-, h⟩⟩⟩
  · rw [h]
    exact .of_outbox rfl
  · rw [h]
    exact .of_outbox (hslot h₁)
  · rw [h]
    have hgone : Sends fd 0 s s₂ := .of_outbox ((hteam h₂).trans (hslot h₁))
    exact hgone.trans (hburied s₂)
  · rw [h]
    have hgone : Sends fd 0 s s₂ := .of_outbox ((hteam h₂).trans (hslot h₁))
    refine (hgone.trans (hburied s₂)).trans (.of_outbox ?_)
    change (releaseArgs cl.eventBuffer _).outbox = _
    rw [releaseArgs_eq]

theorem gamePlaySlot_turn {chance : Chance} {i : Nat} (h : GameSessions s)
    (hplay : gamePlaySlot cfg chance s i = some s') : Turn s s' := by
  have hclients : ∀ {c}, c ∈ s'.live → c ∈ s.live := by
    intro c hc
    obtain ⟨j, hj⟩ := List.getElem?_of_mem (List.reduceOption_mem_iff.1 hc)
    exact mem_of_getElem? (gamePlaySlot_clients h.wf hplay hj)
  cases gamePlaySlot_cases hplay with
  | empty => exact .quiet 0 (.of_outbox rfl) fun _ _ hd => hd
  | eats => exact .quiet 0 (.of_outbox rfl) fun _ _ hd => ⟨hd.live, hd.heap⟩
  | @dies c cl pl hat hdead hfood =>
    refine .quiet 0 (gamePlayerDie_sends hfood) fun d dl hd => ⟨hclients hd.live, ?_⟩
    rcases (gamePlayerDie_deceased cfg s c cl hfood).clientHeap d with hheap | ⟨-, hheap⟩
    · exact hheap.symm.trans hd.heap
    · exact absurd (hheap.symm.trans hd.heap) (by simp)
  | waits => exact .quiet 0 (.of_outbox rfl) fun _ _ hd => hd
  | @plays c cl pl _ hat halive hdue hrun =>
    have hc : LiveClient s c cl := ⟨mem_of_getElem? hat.slot, hat.client⟩
    obtain ⟨n, cl', hsends, hheap, hident, hle⟩ := processClient_sends h hc hrun
    refine .served hc hsends hident hle fun d dl hd => ?_
    have hdl := hd.heap
    rw [hheap, Function.update_apply] at hdl
    split at hdl
    · rename_i hdc
      exact Or.inl ⟨hdc, (Option.some.inj hdl).symm⟩
    · rename_i hdc
      exact Or.inr ⟨hdc, hclients hd.live, hdl⟩

/-- The turn of the server sends nothing and leaves the clients alone. -/
theorem processServer_same {chance : Chance} (hwf : BuffersWF s) (hplay : processServer cfg chance s = some s') :
    s'.clientHeap = s.clientHeap ∧ s'.clients = s.clients ∧ s'.playerHeap = s.playerHeap ∧ s'.outbox = s.outbox := by
  rcases process_cases hplay with ⟨rfl, -⟩ | ⟨-, -, s₂, hcall, hend⟩
  · exact ⟨rfl, rfl, rfl, rfl⟩
  · have hcalled : s₂.clientHeap = s.clientHeap ∧ s₂.clients = s.clients ∧ s₂.playerHeap = s.playerHeap ∧
        s₂.outbox = s.outbox := by
      rcases hwf.server_called hcall with rfl | rfl
      · exact gameSpawnResources_same cfg chance.counts _ _
      · exact ⟨rfl, rfl, rfl, rfl⟩
    rcases hend with ⟨rfl, -⟩ | ⟨addr, -, -, rfl⟩
    · exact hcalled
    · exact hcalled

/-! ### A message -/

/-- The number of commands in a list of messages. -/
def commandsIn (msgs : List ClientMessage) : Nat := msgs.countP fun msg => msg.type = some "cmd"

/-- The number of logins in a list of messages. -/
def loginsIn (msgs : List ClientMessage) : Nat := msgs.countP fun msg => msg.type = some "login"

@[simp] theorem commandsIn_append (msgs more : List ClientMessage) :
    commandsIn (msgs ++ more) = commandsIn msgs + commandsIn more := List.countP_append

@[simp] theorem loginsIn_append (msgs more : List ClientMessage) :
    loginsIn (msgs ++ more) = loginsIn msgs + loginsIn more := List.countP_append

/-- What the handling of `text` sends, all of it to `fd`, and what it does to the clients. -/
structure Receipt (fd : Fd) (text : Option ClientMessage) (s s' : Server) : Prop where
  sends : ∃ out, s'.outbox = s.outbox ++ out ∧
    countKind .welcome (out.map Prod.snd) ≤ loginsIn text.toList ∧
    ∀ e ∈ out, e.1 = fd ∧ (e.2.kind = .welcome ∨ e.2.kind = .error ∨ e.2.kind = .remark)
  clients : ∀ d dl, LiveClient s' d dl → dl.eventBuffer.count = 0 ∨ ∃ dl₀, LiveClient s d dl₀ ∧
    dl.identity = dl₀.identity ∧
    dl.eventBuffer.count ≤ dl₀.eventBuffer.count + if dl.socketFd = fd then commandsIn text.toList else 0

variable {text : Option ClientMessage}

theorem Receipt.refl : Receipt fd text s s where
  sends := ⟨[], (List.append_nil _).symm, Nat.zero_le _, fun _ he => absurd he List.not_mem_nil⟩
  clients := fun _ dl hd => Or.inr ⟨dl, hd, rfl, Nat.le_add_right _ _⟩

/-- One more message of an error or a remark. -/
theorem Receipt.report (h : Receipt fd text s s₁) {msg : Json} (hmsg : msg.kind = .error ∨ msg.kind = .remark) :
    Receipt fd text s (s₁.send fd msg) where
  sends := by
    obtain ⟨out, hout, hwelcome, hkinds⟩ := h.sends
    have hnot : msg.kind ≠ .welcome := by
      rcases hmsg with hmsg | hmsg <;> rw [hmsg] <;> decide
    refine ⟨out ++ [(fd, msg)], ?_, ?_, ?_⟩
    · rw [Server.send, hout, List.append_assoc]
    · rw [List.map_append, countKind_append, List.map_singleton, countKind_singleton, if_neg hnot]
      exact hwelcome
    · intro e he
      rcases List.mem_append.1 he with he | he
      · exact hkinds e he
      · rw [List.mem_singleton] at he
        rw [he]
        exact ⟨rfl, Or.inr hmsg⟩
  clients := fun d dl hd => h.clients d dl ⟨hd.live, hd.heap⟩

private theorem gameExecuteCommand_receipt {conn : Conn} {cmd : String} {arg : Option String} {msg : ClientMessage}
    (hwf : BuffersWF s) (htype : msg.type = some "cmd") :
    Receipt fd (some msg) s (gameExecuteCommand cfg s conn fd cmd arg).2 := by
  have hone : commandsIn (some msg).toList = 1 := by simp [commandsIn, htype]
  unfold gameExecuteCommand
  split
  · exact .refl
  · rename_i c hc
    obtain ⟨-, cl, hcl, hfd⟩ := gameGetClientFromFd_some hc
    split
    · exact .refl
    · rename_i type _
      -- with the argument copied or not, the buffer of the client that was found gets one more event at most
      have hsched : ∀ (s₁ : Server) (copy : Option Arg), s₁.clientHeap = s.clientHeap → s₁.clients = s.clients →
          s₁.outbox = s.outbox → Receipt fd (some msg) s (s₁.modClient c fun cl =>
            { cl with
              eventBuffer :=
                (timeApiScheduleClientEvent s₁.now cl.eventBuffer (prototypeDelay cfg type) (some (.command type))
                  (some cl.player) copy conn).getD cl.eventBuffer }) := by
        intro s₁ copy hheap hclients hout
        have hcl₁ : s₁.clientHeap c = some cl := by rw [hheap, hcl]
        have hold : ∀ d dl, LiveClient s₁ d dl → LiveClient s d dl := fun d dl hd =>
          ⟨by rw [Server.live, ← hclients]; exact hd.live, by rw [← hheap]; exact hd.heap⟩
        rcases modClient_getD hcl₁ (fun cl => timeApiScheduleClientEvent s₁.now cl.eventBuffer
          (prototypeDelay cfg type) (some (.command type)) (some cl.player) copy conn) with ⟨-, h'⟩ | ⟨b, hb, h'⟩
        · rw [h']
          exact ⟨⟨[], by rw [hout, List.append_nil], Nat.zero_le _, fun _ he => absurd he List.not_mem_nil⟩,
            fun d dl hd => Or.inr ⟨dl, hold d dl hd, rfl, Nat.le_add_right _ _⟩⟩
        · rw [h']
          have hadded := (schedule_spec (hwf.client c cl hcl) hb).2.2.1
          refine ⟨⟨[], ?_, Nat.zero_le _, fun _ he => absurd he List.not_mem_nil⟩, fun d dl hd => Or.inr ?_⟩
          · rw [setClientBuffer_eq hcl₁, List.append_nil]
            exact hout
          · rcases setClientBuffer_liveClient hcl₁ hd with ⟨-, hd₁⟩ | ⟨rfl, hd₁, rfl⟩
            · exact ⟨dl, hold d dl hd₁, rfl, Nat.le_add_right _ _⟩
            · refine ⟨cl, hold d cl hd₁, rfl, ?_⟩
              dsimp only
              rw [if_pos hfd, hone, hadded]
      cases arg with
      | none => exact hsched s none rfl rfl rfl
      | some text => exact hsched (s.strdup text).2 _ rfl rfl rfl

private theorem enterGame_receipt {conn : Conn} {teamId : Nat} {draw : StartDraw} :
    Receipt fd text s (enterGame cfg s conn fd teamId draw) where
  sends := by
    refine ⟨[], ?_, Nat.zero_le _, fun _ he => absurd he List.not_mem_nil⟩
    rw [enterGame_eq, onTile, (addPlayer_same _ _ _).rest, List.append_nil]
    rfl
  clients := by
    intro d dl hd
    rcases enterGame_liveClient hd with ⟨-, hd⟩ | ⟨-, rfl⟩
    · exact Or.inr ⟨dl, hd, rfl, Nat.le_add_right _ _⟩
    · exact Or.inl rfl

private theorem welcome_receipt {conn : Conn} {teamName : String} {draw : StartDraw} (n : Int) {msg : ClientMessage}
    (htype : msg.type = some "login") (hreg : gameRegisterPlayer cfg s conn fd teamName draw = (.success, s₁)) :
    Receipt fd (some msg) s (s₁.send fd (welcome s₁ n)) := by
  have hone : loginsIn (some msg).toList = 1 := by simp [loginsIn, htype]
  obtain ⟨teamId, t, -, -, -, hentered⟩ := gameRegisterPlayer_success (congrArg Prod.fst hreg)
  rw [hreg] at hentered
  obtain rfl : s₁ = enterGame cfg s conn fd teamId draw := hentered
  have hreceipt : Receipt fd (some msg) s (enterGame cfg s conn fd teamId draw) := enterGame_receipt
  have hsame : (enterGame cfg s conn fd teamId draw).outbox = s.outbox := by
    rw [enterGame_eq, onTile, (addPlayer_same _ _ _).rest]
    rfl
  refine ⟨⟨[(fd, welcome (enterGame cfg s conn fd teamId draw) n)], ?_, ?_, ?_⟩,
    fun d dl hd => hreceipt.clients d dl ⟨hd.live, hd.heap⟩⟩
  · rw [Server.send, hsame]
  · rw [hone]
    exact countKind_singleton .welcome _ ▸ Nat.le_refl 1
  · intro e he
    rw [List.mem_singleton] at he
    rw [he]
    exact ⟨rfl, Or.inl rfl⟩

theorem handleClientMessage_receipt {conn : Conn} {draw : StartDraw} {ret : Ret} (hwf : BuffersWF s)
    (h : handleClientMessage cfg s conn fd draw text = some (ret, s')) : Receipt fd text s s' := by
  have houtcome := handleClientMessage_outcome h
  clear h
  induction houtcome with
  | ignored => exact .refl
  | command htext htype =>
    rw [htext]
    exact gameExecuteCommand_receipt hwf htype
  | login n htext htype hjoin hreg =>
    rw [htext]
    exact welcome_receipt n htype hreg
  | report _ type about htype ih =>
    refine ih.report ?_
    rcases htype with rfl | rfl | rfl
    · exact Or.inl rfl
    · exact Or.inr rfl
    · exact Or.inr rfl

end Zappy

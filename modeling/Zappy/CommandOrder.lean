import Zappy.Accounts
import Zappy.CommandLoss
import Zappy.Rituals
import Zappy.Lib.Service

/-!
# Answers in the order of the commands

For every connection the server is a service that works first come, first served (`Machine.service`): a command is
asked when it is received, it is queued as an event of the client or lost, and it is answered in the turn that takes
its event out of the buffer.  An incantation keeps its place in the queue while its completion is awaited.  Every step
of the machine is a sequence of steps of that service, so that answers come in the order of the commands, and no
command is answered twice.
-/

namespace Zappy

open LinkedList Relation Run Service Slots

variable {cfg : Config} {K : Conn} {m m' : Machine} {act : MachineAction} {s s' s₁ s₂ : Server} {fd : Fd}

/-! ### Names -/

/-- The command that a message answers. -/
def Json.answers (msg : Json) : Option String :=
  if msg.kind = .answer then match msg.lookup "cmd" with
    | some (.str cmd) => some cmd
    | _ => none
  else none

/-- The commands that are answered, in order. -/
def answered (msgs : List Json) : List String := msgs.filterMap Json.answers

/-- The command that an event will answer. -/
def Event.owes (ev : Event) : Option String :=
  match ev.callback with
  | some (.command type) => some type.getName
  | some .realIncantation => some CommandType.incantation.getName
  | _ => none

/-- The commands that the events in a buffer will answer, in order. -/
def EventBuffer.owed (b : EventBuffer) : List String := b.queued.filterMap Event.owes

/-- The names of the commands in a list of messages. -/
def commandNames (msgs : List ClientMessage) : List String :=
  msgs.filterMap fun msg => if msg.type = some "cmd" then msg.cmd else none

@[simp] theorem answered_nil : answered [] = [] := rfl

@[simp] theorem answered_append (msgs more : List Json) : answered (msgs ++ more) = answered msgs ++ answered more :=
  List.filterMap_append

@[simp] theorem commandNames_nil : commandNames [] = [] := rfl

@[simp] theorem commandNames_append (msgs more : List ClientMessage) :
    commandNames (msgs ++ more) = commandNames msgs ++ commandNames more := List.filterMap_append

private theorem answered_eq_nil {msgs : List Json} (h : ∀ msg ∈ msgs, msg.kind ≠ .answer) : answered msgs = [] := by
  unfold answered
  rw [List.filterMap_eq_nil_iff]
  intro msg hmsg
  rw [Json.answers, if_neg (h msg hmsg)]

private theorem countKind_answer_eq_zero {msgs : List Json} (h : countKind .answer msgs = 0) : answered msgs = [] := by
  unfold countKind at h
  rw [List.countP_eq_zero] at h
  exact answered_eq_nil fun msg hmsg => by simpa using h msg hmsg

/-- A command is known by the name that it gives itself. -/
private theorem getName_of_commandTypeOf {cmd : String} {type : CommandType} (h : commandTypeOf cmd = some type) :
    type.getName = cmd := by
  obtain ⟨entry, hfind, rfl⟩ := Option.map_eq_some_iff.1 h
  have hname : entry.2 = cmd := by simpa using List.find?_some hfind
  have hall : ∀ e ∈ commandMessages, e.1.getName = e.2 := by decide
  exact (hall entry (List.mem_of_find?_eq_some hfind)).trans hname

theorem commandTypeOf_getName (type : CommandType) : commandTypeOf type.getName = some type := by
  cases type <;> decide

/-! ### Buffers -/

namespace EventBuffer

variable {b b' : EventBuffer}

theorem owed_zero (h : b.count = 0) : b.owed = [] := by
  have hlength := b.length_queued
  rw [h, List.length_eq_zero_iff] at hlength
  rw [owed, hlength, List.filterMap_nil]

theorem owed_cons {ev : Event} (h : b'.queued = ev :: b.queued) : b'.owed = ev.owes.toList ++ b.owed := by
  rw [owed, h, List.filterMap_cons]
  cases ev.owes with
  | none => rfl
  | some name => rfl

private theorem owed_concat {ev : Event} (h : b'.queued = b.queued ++ [ev]) : b'.owed = b.owed ++ ev.owes.toList := by
  rw [owed, h, List.filterMap_append]
  cases hev : ev.owes with
  | none => simp [hev, owed]
  | some name => simp [hev, owed]

/-- What an event owes does not depend on its argument. -/
private theorem owed_clearArg (b : EventBuffer) (j : Nat) : (b.clearArg j).owed = b.owed := by
  simp only [owed, queued, RingBuffer.window, List.filterMap_map]
  refine List.filterMap_congr fun k _ => ?_
  simp only [clearArg, Function.comp_apply, Function.update_apply]
  split
  · rename_i hj
    rw [hj]
    rfl
  · rfl

end EventBuffer

/-! ### Callbacks -/

/-- From `s` to `s'` the commands `names` are answered, all of them to `fd`. -/
def Tells (fd : Fd) (names : List String) (s s' : Server) : Prop :=
  ∃ out, s'.outbox = s.outbox ++ out ∧ answered (out.map Prod.snd) = names ∧
    ∀ e ∈ out, e.2.kind = .answer → e.1 = fd

private theorem answers_response {cmd : String} {arg status : Option String}
    (h : (response cmd arg status).kind = .answer) : (response cmd arg status).answers = some cmd := by
  rw [Json.answers, if_pos h]
  rfl

theorem Sends.answers (h : Sends fd 0 s s') (fd' : Fd) : Tells fd' [] s s' := by
  obtain ⟨out, hout, hnone, -⟩ := h
  have hzero := Nat.le_zero.1 hnone
  refine ⟨out, hout, countKind_answer_eq_zero hzero, fun e he hkind => ?_⟩
  unfold countKind at hzero
  rw [List.countP_eq_zero] at hzero
  exact absurd hkind (by simpa using hzero e.2 (List.mem_map_of_mem he))

theorem Tells.trans {names more : List String} (h : Tells fd names s s₁) (h' : Tells fd more s₁ s₂) :
    Tells fd (names ++ more) s s₂ := by
  obtain ⟨out, hout, hnames, hfd⟩ := h
  obtain ⟨out', hout', hmore, hfd'⟩ := h'
  refine ⟨out ++ out', by rw [hout', hout, List.append_assoc], ?_, ?_⟩
  · rw [List.map_append, answered_append, hnames, hmore]
  · intro e he
    rcases List.mem_append.1 he with he | he
    · exact hfd e he
    · exact hfd' e he

/-- An answer after messages that answer nothing. -/
private theorem Sends.concludes {msg : Json} {name : String} (h : Sends fd 0 s s₁) (hmsg : msg.answers = some name) :
    Tells fd [name] s (s₁.send fd msg) := by
  refine (h.answers fd).trans ⟨[(fd, msg)], rfl, ?_, ?_⟩
  · simp [answered, hmsg]
  · intro e he _
    rw [List.mem_singleton.1 he]

private theorem commandTransfer_answers {cmd : String} {add : Int} {p : Addr} {pl : Player} {arg : Option Arg}
    (hcmd : ∀ arg status, (response cmd arg status).kind = .answer) :
    Tells pl.id [cmd] s (commandTransfer cmd add s p pl arg) := by
  have hstart : Sends pl.id 0 s s := .of_outbox rfl
  unfold commandTransfer
  split
  · exact hstart.concludes (answers_response (hcmd _ _))
  · split
    · exact hstart.concludes (answers_response (hcmd _ _))
    · split
      · exact hstart.concludes (answers_response (hcmd _ _))
      · rename_i s₁ hmove
        have hitems : Sends pl.id 0 s s₁ := by
          refine .of_outbox ?_
          simp only [helperItemsToTiles] at hmove
          split_ifs at hmove <;> cases hmove <;> rfl
        exact hitems.concludes (answers_response (hcmd _ _))

/-- A command other than an incantation answers itself. -/
private theorem runCommand_answers {fuel : Nat} {p : Addr} {pl : Player} {ev : Event} {c : CommandType}
    (hc : c ≠ .incantation) (h : runCommand cfg fuel s p pl ev c = some s') : Tells pl.id [c.getName] s s' := by
  have hstart : Sends pl.id 0 s s := .of_outbox rfl
  cases c with
  | incantation => exact absurd rfl hc
  | avance =>
    cases h
    have hmove : Sends pl.id 0 s (gameMovePlayer s p (stepAhead s pl.pos pl.dir)) :=
      .of_outbox (movePlayer_same ..).outbox
    exact hmove.concludes (answers_response (kind_response _ _ _))
  | droite =>
    cases h
    have hturn : Sends pl.id 0 s (s.modPlayer p fun r => { r with dir := turnRight pl.dir }) := .of_outbox rfl
    exact hturn.concludes (answers_response (kind_response _ _ _))
  | gauche =>
    cases h
    have hturn : Sends pl.id 0 s (s.modPlayer p fun r => { r with dir := turnLeft pl.dir }) := .of_outbox rfl
    exact hturn.concludes (answers_response (kind_response _ _ _))
  | voir =>
    simp only [runCommand, commandVoir, Option.map_eq_some_iff] at h
    obtain ⟨vision, -, rfl⟩ := h
    exact hstart.concludes rfl
  | inventaire =>
    cases h
    exact hstart.concludes rfl
  | prend =>
    cases h
    exact commandTransfer_answers fun _ _ => kind_response _ _ _
  | pose =>
    cases h
    exact commandTransfer_answers fun _ _ => kind_response _ _ _
  | expulse =>
    simp only [runCommand, commandExpulse] at h
    split at h
    · cases h
      exact hstart.concludes (answers_response (kind_response _ _ _))
    · simp only [Option.map_eq_some_iff] at h
      obtain ⟨s₁, h₁, rfl⟩ := h
      have hloop : Sends pl.id 0 s s₁ :=
        forEach_invariant (fun _ _ _ hturn hI => hI.trans (expulseTurn_sends hturn)) h₁ hstart
      exact hloop.concludes (answers_response (kind_response _ _ _))
  | broadcast =>
    simp only [runCommand, commandBroadcast, Option.map_eq_some_iff] at h
    obtain ⟨s₁, h₁, rfl⟩ := h
    have hloop : Sends pl.id 0 s s₁ :=
      Run.foldlM_invariant (fun _ _ _ _ hturn hI => hI.trans (broadcastTurn_sends hturn)) h₁ hstart
    exact hloop.concludes (answers_response (kind_response _ _ _))
  | fork =>
    cases h
    exact hstart.concludes (answers_response (kind_response _ _ _))
  | connectNbr =>
    simp only [runCommand, commandConnectNbr, Option.map_eq_some_iff] at h
    obtain ⟨n, -, rfl⟩ := h
    exact hstart.concludes (answers_response (kind_response _ _ _))

/-- So does the completion of an incantation, after the notices to those who rise. -/
private theorem commandRealIncantation_answers {p : Addr} {pl : Player} {arg : Option Arg}
    (h : commandRealIncantation s p pl arg = some s') :
    Tells pl.id [CommandType.incantation.getName] s s' := by
  have hstart : Sends pl.id 0 s s := .of_outbox rfl
  obtain ⟨a, -, rfl | ⟨-, -, s₁, h₁, rfl⟩⟩ := commandRealIncantation_cases h
  · exact hstart.concludes (answers_response (kind_response _ _ _))
  · have hloop : Sends pl.id 0 s s₁ := by
      refine forEach_invariant (I := fun t => Sends pl.id 0 s t) (fun t q t' hturn hI => ?_) h₁ hstart
      simp only [levelUpTurn, Option.map_eq_some_iff] at hturn
      obtain ⟨r, -, rfl⟩ := hturn
      split
      · have hlevel : Sends pl.id 0 t (t.modPlayer q fun r => { r with level := r.level + 1 }) := .of_outbox rfl
        exact hI.trans (hlevel.trans (.notice _ (kind_response _ _ _)))
      · exact hI
    have hbook : Sends pl.id 0 s (s₁.record (.completed p pl.level)) := hloop.trans (.of_outbox rfl)
    exact hbook.concludes (answers_response (kind_response _ _ _))

/-- What a callback does to the buffer `b` of the client `c`, on behalf of whose player it runs: it answers what its
event owes, or it puts the completion of an incantation in front. -/
inductive Called (c : Addr) (cl : Client) (ev : Event) (s s' : Server) : Prop
  | concluded (hheap : s'.clientHeap = s.clientHeap) (hanswers : Tells cl.socketFd ev.owes.toList s s') :
      Called c cl ev s s'
  | postponed {b : EventBuffer}
      (hheap : s'.clientHeap = Function.update s.clientHeap c (some { cl with eventBuffer := b }))
      (howed : b.owed = ev.owes.toList ++ cl.eventBuffer.owed) (hanswers : Tells cl.socketFd [] s s') :
      Called c cl ev s s'

/-- An incantation is answered at once, or its completion will be the next event. -/
private theorem commandIncantation_called {c : Addr} {cl : Client} {pl : Player} {ev : Event} {origin : Conn}
    (hev : ev.callback = some (.command .incantation)) (hcl : s.clientHeap c = some cl)
    (hfound : s.gameGetClientFromFd pl.id = some c) (hfd : pl.id = cl.socketFd) (hwf : cl.eventBuffer.WF)
    (hroom : cl.eventBuffer.count < maxEvents) (h : commandIncantation cfg s cl.player pl origin = some s') :
    Called c cl ev s s' := by
  have howes : ev.owes = some CommandType.incantation.getName := by rw [Event.owes, hev]
  obtain rfl | ⟨-, rfl⟩ := commandIncantation_cases h
  · refine .concluded rfl ?_
    rw [howes, ← hfd]
    have hstart : Sends pl.id 0 s s := .of_outbox rfl
    exact hstart.concludes (answers_response (kind_response _ _ _))
  · have hpaid : Sends cl.socketFd 0 s (payRitual s cl.player pl) := .of_outbox rfl
    obtain ⟨b, hb, hqueue⟩ := queueCompletion_room (s := payRitual s cl.player pl) cfg cl.player origin hfound hcl hroom
    obtain ⟨-, -, -, hqueued⟩ := scheduleFront_spec hwf hb
    rw [hqueue]
    refine .postponed (b := b) ?_ ?_ ?_
    · rw [setClientBuffer_eq (s := ((payRitual s cl.player pl).strdup _).2) hcl]
      rfl
    · rw [EventBuffer.owed_cons hqueued, howes]
      rfl
    · have hqueued : Sends cl.socketFd 0 (payRitual s cl.player pl)
          (((payRitual s cl.player pl).strdup (snprintf 12 pl.level)).2.setClientBuffer c b) := .of_outbox rfl
      have hnotice := hqueued.trans (.notice pl.id (kind_response "incantation" none (some "in_progress")))
      exact (hpaid.trans hnotice).answers _

/-- An event about the player of the client `c`, whose buffer has room for a completion. -/
private theorem runCallback_called {chance : Chance} {c : Addr} {cl : Client} {pl : Player} {ev : Event}
    (hcl : s.clientHeap c = some cl) (hpl : s.playerHeap cl.player = some pl) (hfd : pl.id = cl.socketFd)
    (hfound : s.gameGetClientFromFd pl.id = some c) (hdata : ev.data = some cl.player) (hwf : cl.eventBuffer.WF)
    (hroom : cl.eventBuffer.count < maxEvents) (h : runCallback cfg chance ev s = some s') :
    Called c cl ev s s' := by
  have hnothing : ev.owes = none → s'.clientHeap = s.clientHeap → s'.outbox = s.outbox → Called c cl ev s s' := by
    intro howes hheap hout
    refine .concluded hheap ?_
    rw [howes]
    have hsilent : Sends cl.socketFd 0 s s' := .of_outbox hout
    exact hsilent.answers _
  unfold runCallback at h
  cases hcb : ev.callback with
  | none =>
    rw [hcb] at h
    cases h
    exact hnothing (by rw [Event.owes, hcb]) rfl rfl
  | some cb =>
    rw [hcb] at h
    cases cb with
    | spawnResources =>
      cases h
      obtain ⟨hheap, -, -, hout⟩ := gameSpawnResources_same cfg chance.counts s ev
      exact hnothing (by rw [Event.owes, hcb]) hheap hout
    | command type =>
      simp only [hdata, Option.bind_some, hpl] at h
      by_cases htype : type = .incantation
      · subst htype
        exact commandIncantation_called hcb hcl hfound hfd hwf hroom h
      · have hctl := runCommand_control htype h
        refine .concluded (by rw [hctl.rest]) ?_
        have hanswers := runCommand_answers htype h
        rw [hfd] at hanswers
        rw [Event.owes, hcb]
        exact hanswers
    | realIncantation =>
      simp only [hdata, Option.bind_some, hpl] at h
      refine .concluded (by rw [commandRealIncantation_control h]) ?_
      have hanswers := commandRealIncantation_answers h
      rw [hfd] at hanswers
      rw [Event.owes, hcb]
      exact hanswers

/-! ### Turns -/

/-- In its turn a client is answered what comes first in its buffer, or nothing. -/
private theorem processClient_answers {chance : Chance} {c : Addr} {cl : Client} (h : GameSessions s)
    (hc : LiveClient s c cl) (hrun : processClient cfg chance c s = some s') :
    ∃ names cl', Tells cl.socketFd names s s' ∧ s'.clientHeap = Function.update s.clientHeap c (some cl') ∧
      cl'.identity = cl.identity ∧ names ++ cl'.eventBuffer.owed = cl.eventBuffer.owed := by
  rcases processClient_cases (h.wf.client c cl hc.heap) hc.heap hrun with
    rfl | ⟨ev, hqueued, hcount, -, s₂, hcall, hend⟩
  · have hsilent : Sends cl.socketFd 0 s' s' := .of_outbox rfl
    refine ⟨[], cl, hsilent.answers _, ?_, rfl, rfl⟩
    rw [← hc.heap, Function.update_eq_self]
  obtain ⟨cl₀, pl, hcl₀, hpl, hid⟩ := h.reg.client_heap hc.live
  obtain rfl := Option.some.inj (hc.heap.symm.trans hcl₀)
  have hdata : ev.data = some cl.player := (h.events c cl hc ev (by rw [hqueued]; exact List.mem_cons_self)).1
  have hwf := EventBuffer.pop_wf (h.wf.client c cl hc.heap) hcount
  have howed : cl.eventBuffer.owed = ev.owes.toList ++ cl.eventBuffer.pop.owed := EventBuffer.owed_cons hqueued
  have hpop := setClientBuffer_eq (b := cl.eventBuffer.pop) hc.heap
  -- the lookup by the descriptor of the player finds the client itself
  have hlive : LiveClient (s.setClientBuffer c cl.eventBuffer.pop) c { cl with eventBuffer := cl.eventBuffer.pop } :=
    ⟨hc.live, by rw [hpop]; exact Function.update_self ..⟩
  have hplayer : (s.setClientBuffer c cl.eventBuffer.pop).playerHeap cl.player = some pl := by
    rw [hpop]
    exact hpl
  have hheld : FdHeld (s.setClientBuffer c cl.eventBuffer.pop) pl.id := ⟨c, _, hlive, hid.symm⟩
  obtain ⟨d, hd⟩ := Option.isSome_iff_exists.1 (fdHeld_iff.1 hheld)
  obtain rfl := (h.unique.setBuffer _ hc.heap).lookup_own (h.reg.setBuffer _ hc.heap) hlive hplayer hd
  have hroom : cl.eventBuffer.pop.count < maxEvents := by
    have hle := (h.wf.client d cl hc.heap).count
    simp only [EventBuffer.pop]
    omega
  have hstart : Sends cl.socketFd 0 s (s.setClientBuffer d cl.eventBuffer.pop) := .of_outbox (by rw [hpop])
  have hcalled : ∃ names cl', Tells cl.socketFd names s s₂ ∧
      s₂.clientHeap = Function.update s.clientHeap d (some cl') ∧ cl'.identity = cl.identity ∧
      names ++ cl'.eventBuffer.owed = cl.eventBuffer.owed := by
    cases runCallback_called hlive.heap hplayer hid hd hdata hwf hroom hcall with
    | concluded hheap hanswers =>
      refine ⟨_, { cl with eventBuffer := cl.eventBuffer.pop }, (hstart.answers _).trans hanswers, ?_, rfl,
        howed.symm⟩
      rw [hheap, hpop]
    | @postponed b hheap howed' hanswers =>
      refine ⟨_, { cl with eventBuffer := b }, (hstart.answers _).trans hanswers, ?_, rfl, howed'.trans howed.symm⟩
      rw [hheap, hpop, Function.update_idem]
  rcases hend with rfl | ⟨addr, cl', j, hcl', -, -, rfl⟩
  · exact hcalled
  · obtain ⟨names, cl₁, hanswers, hheap, hident, hrest⟩ := hcalled
    obtain rfl : cl₁ = cl' := by
      rw [hheap, Function.update_self] at hcl'
      exact Option.some.inj hcl'
    refine ⟨names, { cl₁ with eventBuffer := cl₁.eventBuffer.clearArg j }, ?_, ?_, hident, ?_⟩
    · have hclear : Sends cl.socketFd 0 s₂ ((s₂.setClientBuffer d (cl₁.eventBuffer.clearArg j)).release addr) :=
        .of_outbox (by rw [setClientBuffer_eq hcl']; rfl)
      simpa using hanswers.trans (hclear.answers _)
    · rw [setClientBuffer_eq hcl']
      change Function.update s₂.clientHeap d _ = _
      rw [hheap, Function.update_idem]
    · dsimp only
      rw [EventBuffer.owed_clearArg]
      exact hrest

/-- What a turn answers, and what it leaves of the clients. -/
inductive Serving (s s' : Server) : Prop
  | quiet (hsends : Sends 0 0 s s') (hkeep : ∀ d dl, LiveClient s' d dl → LiveClient s d dl) : Serving s s'
  | served {c : Addr} {cl cl' : Client} {names : List String} (hc : LiveClient s c cl)
      (hanswers : Tells cl.socketFd names s s') (hident : cl'.identity = cl.identity)
      (howed : names ++ cl'.eventBuffer.owed = cl.eventBuffer.owed)
      (hkeep : ∀ d dl, LiveClient s' d dl → (d = c ∧ dl = cl') ∨ (d ≠ c ∧ LiveClient s d dl)) : Serving s s'

private theorem gamePlaySlot_serving {chance : Chance} {i : Nat} (h : GameSessions s)
    (hplay : gamePlaySlot cfg chance s i = some s') : Serving s s' := by
  have hclients : ∀ {c}, c ∈ s'.live → c ∈ s.live := by
    intro c hc
    obtain ⟨j, hj⟩ := List.getElem?_of_mem (List.reduceOption_mem_iff.1 hc)
    exact mem_of_getElem? (gamePlaySlot_clients h.wf hplay hj)
  cases gamePlaySlot_cases hplay with
  | empty => exact .quiet (.of_outbox rfl) fun _ _ hd => hd
  | eats => exact .quiet (.of_outbox rfl) fun _ _ hd => ⟨hd.live, hd.heap⟩
  | @dies c cl pl hat hdead hfood =>
    refine .quiet (gamePlayerDie_sends hfood) fun d dl hd => ⟨hclients hd.live, ?_⟩
    rcases (gamePlayerDie_deceased cfg s c cl hfood).clientHeap d with hheap | ⟨-, hheap⟩
    · exact hheap.symm.trans hd.heap
    · exact absurd (hheap.symm.trans hd.heap) (by simp)
  | waits => exact .quiet (.of_outbox rfl) fun _ _ hd => hd
  | @plays c cl pl _ hat halive hdue hrun =>
    have hc : LiveClient s c cl := ⟨mem_of_getElem? hat.slot, hat.client⟩
    obtain ⟨names, cl', hanswers, hheap, hident, howed⟩ := processClient_answers h hc hrun
    refine .served hc hanswers hident howed fun d dl hd => ?_
    have hdl := hd.heap
    rw [hheap, Function.update_apply] at hdl
    split at hdl
    · rename_i hdc
      exact Or.inl ⟨hdc, (Option.some.inj hdl).symm⟩
    · rename_i hdc
      exact Or.inr ⟨hdc, hclients hd.live, hdl⟩

/-! ### Messages -/

/-- A command that the message gives is one that the server knows. -/
def ClientMessage.Known (msg : ClientMessage) : Prop :=
  msg.type = some "cmd" → ∃ type, msg.cmd.bind commandTypeOf = some type

/-- What becomes of the buffer of a client that was there when `text` came in on `fd`. -/
structure Taking (fd : Fd) (text : Option ClientMessage) (dl₀ dl : Client) (taken : List String) : Prop where
  ident : dl.identity = dl₀.identity
  owed : dl.eventBuffer.owed = dl₀.eventBuffer.owed ++ taken
  sub : taken.Sublist (if dl.socketFd = fd then commandNames text.toList else [])
  /-- A known command is taken when there is room. -/
  all : dl.socketFd = fd → dl₀.eventBuffer.count < maxEvents → (∀ msg, text = some msg → msg.Known) →
    taken = commandNames text.toList

/-- A live client was there before, or it has just logged in. -/
def Takes (fd : Fd) (text : Option ClientMessage) (s s' : Server) : Prop :=
  ∀ d dl, LiveClient s' d dl → (dl.eventBuffer.count = 0 ∧ dl.socketFd = fd ∧ loginsIn text.toList = 1) ∨
    ∃ dl₀ taken, LiveClient s d dl₀ ∧ Taking fd text dl₀ dl taken

variable {text : Option ClientMessage} {msg : ClientMessage}

theorem Taking.refl (dl : Client) (h : dl.socketFd = fd → (∀ msg, text = some msg → msg.Known) →
    commandNames text.toList = []) : Taking fd text dl dl [] where
  ident := rfl
  owed := (List.append_nil _).symm
  sub := List.nil_sublist _
  all := fun hfd _ hknown => (h hfd hknown).symm

theorem commandNames_of_type (h : msg.type ≠ some "cmd") : commandNames (some msg).toList = [] := by
  simp [commandNames, h]

private theorem commandNames_cmd {cmd : String} (htype : msg.type = some "cmd") (hcmd : msg.cmd = some cmd) :
    commandNames (some msg).toList = [cmd] := by
  simp [commandNames, htype, hcmd]

private theorem gameExecuteCommand_clients (cfg : Config) (s : Server) (conn : Conn) (fd : Fd) (cmd : String)
    (arg : Option String) : (gameExecuteCommand cfg s conn fd cmd arg).2.clients = s.clients := by
  unfold gameExecuteCommand
  split
  · rfl
  · split
    · rfl
    · cases arg <;> rfl

/-- The client on the descriptor takes a known command if it has room. -/
private theorem gameExecuteCommand_takes {conn : Conn} {cmd : String} (hwf : BuffersWF s) (hunique : UniqueFds s)
    (htype : msg.type = some "cmd") (hcmd : msg.cmd = some cmd) :
    Takes fd (some msg) s (gameExecuteCommand cfg s conn fd cmd msg.arg).2 := by
  have hnames := commandNames_cmd htype hcmd
  intro d dl hd
  refine Or.inr ?_
  have hlive : d ∈ s.live := by
    have hd' := hd.live
    rwa [Server.live, gameExecuteCommand_clients] at hd'
  cases hfound : s.gameGetClientFromFd fd with
  | none =>
    have hsame : (gameExecuteCommand cfg s conn fd cmd msg.arg).2 = s := by simp [gameExecuteCommand, hfound]
    rw [hsame] at hd
    refine ⟨dl, [], hd, .refl dl fun hfd _ => ?_⟩
    have hheld := fdHeld_iff.1 ⟨d, dl, hd, hfd⟩
    rw [hfound] at hheld
    cases hheld
  | some c =>
    obtain ⟨hmem, cl, hcl, hclfd⟩ := gameGetClientFromFd_some hfound
    cases hknown : commandTypeOf cmd with
    | none =>
      have hsame : (gameExecuteCommand cfg s conn fd cmd msg.arg).2 = s := by
        simp [gameExecuteCommand, hfound, hknown]
      rw [hsame] at hd
      refine ⟨dl, [], hd, .refl dl fun _ hall => ?_⟩
      obtain ⟨type, htype'⟩ := hall msg rfl htype
      rw [hcmd, Option.bind_some, hknown] at htype'
      cases htype'
    | some type =>
      obtain ⟨s₁, copy, hexec, -, -, hheap⟩ := gameExecuteCommand_known cfg conn msg.arg hfound hknown
      rw [hexec] at hd
      have hdl := hd.heap
      rw [hheap, Function.update_apply, hcl, Option.map_some] at hdl
      split at hdl
      · rename_i hdc
        subst hdc
        obtain rfl := Option.some.inj hdl
        cases hb : timeApiScheduleClientEvent s.now cl.eventBuffer (prototypeDelay cfg type) (some (.command type))
            (some cl.player) copy conn with
        | none =>
          have hfull := schedule_eq_none_iff.1 hb
          exact ⟨cl, [], ⟨hlive, hcl⟩, rfl, (List.append_nil _).symm, List.nil_sublist _,
            fun _ hroom => absurd hfull (Nat.not_le.2 hroom)⟩
        | some b =>
          have hqueued := (schedule_spec (hwf.client d cl hcl) hb).2.2.2
          have howes : (scheduledEvent s.now cl.eventBuffer (prototypeDelay cfg type) (some (.command type))
              (some cl.player) copy conn).owes = some cmd := by
            rw [scheduledEvent, Event.owes]
            exact congrArg some (getName_of_commandTypeOf hknown)
          refine ⟨cl, [cmd], ⟨hlive, hcl⟩, rfl, ?_, ?_, fun _ _ _ => hnames.symm⟩
          · rw [Option.getD_some, EventBuffer.owed_concat hqueued, howes]
            rfl
          · rw [if_pos hclfd, hnames]
      · rename_i hdc
        have hd₀ : LiveClient s d dl := ⟨hlive, hdl⟩
        refine ⟨dl, [], hd₀, .refl dl fun hfd _ => ?_⟩
        exact absurd (hunique d c dl cl hd₀ ⟨List.reduceOption_mem_iff.2 hmem, hcl⟩ (hfd.trans hclfd.symm)) hdc

theorem Takes.ignored (h : text.toList.all fun msg => msg.type ≠ some "cmd") : Takes fd text s s := by
  intro d dl hd
  refine Or.inr ⟨dl, [], hd, .refl dl fun _ _ => ?_⟩
  cases text with
  | none => rfl
  | some msg => exact commandNames_of_type (by simpa using h)

/-- What is sent changes no buffer. -/
theorem Takes.congr (h : Takes fd text s s₁) (hclients : s₂.clients = s₁.clients)
    (hheap : s₂.clientHeap = s₁.clientHeap) : Takes fd text s s₂ := fun d dl hd =>
  h d dl ⟨by rw [Server.live, ← hclients]; exact hd.live, by rw [← hheap]; exact hd.heap⟩

private theorem Outcome.takes {conn : Conn} {draw : StartDraw} (h : Outcome cfg s conn fd draw (some msg) s')
    (htype : msg.type ≠ some "cmd") : Takes fd (some msg) s s' := by
  have hnone : Takes fd (some msg) s s := .ignored (by simpa using htype)
  induction h with
  | ignored => exact hnone
  | command htext htype' =>
    cases htext
    exact absurd htype' htype
  | @login msg' teamName s₁ n htext htype' hjoin hreg =>
    cases htext
    obtain ⟨teamId, t, -, -, -, hentered⟩ := gameRegisterPlayer_success (congrArg Prod.fst hreg)
    rw [hreg] at hentered
    obtain rfl : s₁ = enterGame cfg s conn fd teamId draw := hentered
    intro d dl hd
    rcases enterGame_liveClient ⟨hd.live, hd.heap⟩ with ⟨-, hd⟩ | ⟨-, rfl⟩
    · exact hnone d dl hd
    · exact Or.inl ⟨rfl, rfl, by simp [loginsIn, htype']⟩
  | report _ type about _ ih => exact ih.congr rfl rfl

private theorem handleClientMessage_takes {conn : Conn} {draw : StartDraw} {ret : Ret} (hwf : BuffersWF s)
    (hunique : UniqueFds s) (h : handleClientMessage cfg s conn fd draw text = some (ret, s')) :
    Takes fd text s s' := by
  cases text with
  | none =>
    cases h
    exact .ignored rfl
  | some msg =>
    by_cases htype : msg.type = some "cmd"
    · have hcmd : Takes fd (some msg) s (handleCmd cfg s conn fd msg).2 := by
        unfold handleCmd
        split
        · rename_i hnone
          intro d dl hd
          refine Or.inr ⟨dl, [], hd, .refl dl fun _ hall => ?_⟩
          obtain ⟨type, hknown⟩ := hall msg rfl htype
          rw [hnone] at hknown
          cases hknown
        · rename_i cmd hcmd
          exact gameExecuteCommand_takes hwf hunique htype hcmd
      unfold handleClientMessage at h
      dsimp only at h
      rw [htype] at h
      cases hret : handleCmd cfg s conn fd msg with
      | mk ret₁ s₁ =>
        rw [hret] at h hcmd
        cases ret₁ with
        | error =>
          cases h
          exact hcmd.congr rfl rfl
        | success =>
          cases h
          exact hcmd
    · exact (handleClientMessage_outcome h).takes htype

/-! ### The service of a connection -/

/-- The live client whose descriptor has the session of `K`. -/
def Machine.clientOf (m : Machine) (K : Conn) : Option Client :=
  (m.server.live.filterMap fun c =>
    (m.server.clientHeap c).filter fun cl => m.session cl.socketFd = some K).head?

/-- The server, seen from the connection `K` on which the commands `asked` have come in. -/
def Machine.service (m : Machine) (K : Conn) (asked : List String) : State String where
  asked := asked
  queue := ((m.clientOf K).map fun cl => cl.eventBuffer.owed).getD []
  answered := answered (m.wireTo K)

theorem clientOf_some {cl : Client} (h : m.clientOf K = some cl) :
    ∃ c, LiveClient m.server c cl ∧ m.session cl.socketFd = some K := by
  obtain ⟨c, hc, hcl⟩ := List.mem_filterMap.1 (List.mem_of_mem_head? h)
  obtain ⟨hheap, hsession⟩ := Option.filter_eq_some_iff.1 hcl
  exact ⟨c, ⟨hc, hheap⟩, by simpa using hsession⟩

theorem Machine.Accounts.clientOf {cmds logins : Nat} (h : m.Accounts K cmds logins) {c : Addr} {cl : Client}
    (hc : LiveClient m.server c cl) (hK : m.session cl.socketFd = some K) : m.clientOf K = some cl := by
  have hmem : cl ∈ m.server.live.filterMap fun c =>
      (m.server.clientHeap c).filter fun cl => m.session cl.socketFd = some K :=
    List.mem_filterMap.2 ⟨c, hc.live, Option.filter_eq_some_iff.2 ⟨hc.heap, by simpa using hK⟩⟩
  obtain ⟨dl, hdl⟩ := Option.isSome_iff_exists.1 (List.isSome_head?.2 (List.ne_nil_of_mem hmem))
  obtain ⟨d, hd, hdK⟩ := clientOf_some hdl
  obtain rfl := h.same_client hc hd hK hdK
  obtain rfl := Option.some.inj (hc.heap.symm.trans hd.heap)
  exact hdl

/-- Of the commands that are answered, a connection is told those that are answered on its descriptor. -/
private theorem answered_toConn {session : Fd → Option Conn} {out : List (Fd × Json)}
    (h : ∀ e ∈ out, e.2.kind = .answer → e.1 = fd) :
    answered (toConn session K out) = if session fd = some K then answered (out.map Prod.snd) else [] := by
  induction out with
  | nil => simp [toConn]
  | cons e out ih =>
    have hrest := ih fun e' he' => h e' (List.mem_cons_of_mem _ he')
    have hcons : toConn session K (e :: out) =
        (if session e.1 = some K then [e.2] else []) ++ toConn session K out := by
      unfold toConn
      rw [List.filterMap_cons]
      split <;> simp_all
    have hmap : answered ((e :: out).map Prod.snd) = answered [e.2] ++ answered (out.map Prod.snd) := by
      rw [← answered_append]
      rfl
    rw [hcons, hmap, answered_append, hrest]
    by_cases hkind : e.2.kind = .answer
    · rw [h e List.mem_cons_self hkind]
      split <;> simp
    · have hnone : answered [e.2] = [] := answered_eq_nil fun msg hmsg => by rwa [List.mem_singleton.1 hmsg]
      rw [hnone]
      split <;> split <;> simp [hnone]

theorem Tells.toConn {names : List String} (h : Tells fd names s s') (hs : s.outbox = [])
    (session : Fd → Option Conn) :
    answered (toConn session K s'.outbox) = if session fd = some K then names else [] := by
  obtain ⟨out, hout, hnames, hfd⟩ := h
  rw [hout, hs, List.nil_append, answered_toConn hfd, hnames]

theorem Machine.Accounts.queue {cmds logins : Nat} (h : m.Accounts K cmds logins) {c : Addr} {cl : Client}
    (hc : LiveClient m.server c cl) (hK : m.session cl.socketFd = some K) (asked : List String) :
    (m.service K asked).queue = cl.eventBuffer.owed := by
  rw [Machine.service, h.clientOf hc hK]
  rfl

/-- What a step does for the connection `K`: the commands `names` in front of its queue are answered, and a live client
on `K` has the `rest` and some of the commands that were received, all of them if they are known and there is room. -/
structure Progress (K : Conn) (m : Machine) (act : MachineAction) (m' : Machine) (names rest : List String) : Prop where
  queue : ∀ asked, (m.service K asked).queue = names ++ rest
  answers : answered (m'.wireTo K) = answered (m.wireTo K) ++ names
  clients : ∀ c cl', LiveClient m'.server c cl' → m'.session cl'.socketFd = some K →
    (cl'.eventBuffer.count = 0 ∧ loginsIn (m.hears K act) = 1) ∨ ∃ cl taken, LiveClient m.server c cl ∧
      m.session cl.socketFd = some K ∧ cl'.eventBuffer.owed = rest ++ taken ∧
      taken.Sublist (commandNames (m.hears K act)) ∧ (cl.eventBuffer.count < maxEvents →
        (∀ msg ∈ m.hears K act, msg.Known) → taken = commandNames (m.hears K act))

/-- A step in which nothing is heard of `K` by a client that stays. -/
private theorem progress_of {names rest : List String} (hqueue : ∀ asked, (m.service K asked).queue = names ++ rest)
    (hanswered : answered (m'.wireTo K) = answered (m.wireTo K) ++ names)
    (hclients : ∀ c cl', LiveClient m'.server c cl' → m'.session cl'.socketFd = some K →
      m.hears K act = [] ∧ ∃ cl, LiveClient m.server c cl ∧ m.session cl.socketFd = some K ∧
        cl'.eventBuffer.owed = rest) : Progress K m act m' names rest where
  queue := hqueue
  answers := hanswered
  clients := by
    intro c cl' hc hK
    obtain ⟨hnone, cl, hc₀, hK₀, howed⟩ := hclients c cl' hc hK
    rw [hnone]
    exact Or.inr ⟨cl, [], hc₀, hK₀, by rw [howed, List.append_nil], List.nil_sublist _, fun _ _ => rfl⟩

/-- A step that leaves the clients alone and answers nothing. -/
private theorem Machine.Accounts.progress_still {cmds logins : Nat} (h : m.Accounts K cmds logins)
    (hmove : MachineMove cfg m act m')
    (hserver : m'.server.clients = m.server.clients ∧ m'.server.clientHeap = m.server.clientHeap)
    (hanswered : answered (m'.wireTo K) = answered (m.wireTo K))
    (hquiet : ∀ c cl, LiveClient m.server c cl → m'.session cl.socketFd = some K → m.hears K act = []) :
    Progress K m act m' [] (m.service K []).queue := by
  refine progress_of (fun _ => rfl) (by rw [hanswered, List.append_nil]) fun c cl hc hK => ?_
  have hc₀ : LiveClient m.server c cl :=
    ⟨by rw [Server.live, ← hserver.1]; exact hc.live, by rw [← hserver.2]; exact hc.heap⟩
  have hK₀ := hmove.session_back h.sessions hc₀ hK
  exact ⟨hquiet c cl hc₀ hK, cl, hc₀, hK₀, (h.queue hc₀ hK₀ _).symm⟩

private theorem Machine.Accounts.progress_turn {cmds logins : Nat} (h : m.Accounts K cmds logins) {chance : Chance}
    {i : Nat} (hplay : gamePlaySlot cfg chance m.server i = some s₁) : ∃ names rest, Progress K m (.playSlot chance)
      ({ m with server := s₁, phase := .play (i + 1) } : Machine).deliver names rest := by
  have hwire := wireTo_deliver { m with server := s₁, phase := .play (i + 1) } K
  have hanswered : ∀ {fd names}, Tells fd names m.server s₁ →
      answered (({ m with server := s₁, phase := .play (i + 1) } : Machine).deliver.wireTo K) =
        answered (m.wireTo K) ++ if m.session fd = some K then names else [] := by
    intro fd names hanswers
    rw [hwire, answered_append, ← hanswers.toConn h.outbox m.session]
    rfl
  rcases gamePlaySlot_serving h.sessions.game hplay with ⟨hsends, hkeep⟩ | ⟨hc, hanswers, hident, howed, hkeep⟩
  · refine ⟨[], (m.service K []).queue, progress_of (fun _ => rfl) ?_ fun d dl hd hK => ⟨rfl, ?_⟩⟩
    · rw [hanswered (hsends.answers 0), ite_self]
    · have hd₀ := hkeep d dl ⟨hd.live, hd.heap⟩
      exact ⟨dl, hd₀, hK, (h.queue hd₀ hK _).symm⟩
  · rename_i c cl cl' names
    have hfd : cl'.socketFd = cl.socketFd := (Client.identity_eq hident).1
    by_cases hcK : m.session cl.socketFd = some K
    · -- the client of `K` is served
      refine ⟨names, cl'.eventBuffer.owed, progress_of (fun _ => ?_) ?_ fun d dl hd hK => ⟨rfl, ?_⟩⟩
      · rw [h.queue hc hcK, howed]
      · rw [hanswered hanswers, if_pos hcK]
      · rcases hkeep d dl ⟨hd.live, hd.heap⟩ with ⟨rfl, rfl⟩ | ⟨hdc, hd₀⟩
        · exact ⟨cl, hc, hcK, rfl⟩
        · exact absurd (h.same_client hd₀ hc hK hcK) hdc
    · refine ⟨[], (m.service K []).queue, progress_of (fun _ => rfl) ?_ fun d dl hd hK => ⟨rfl, ?_⟩⟩
      · rw [hanswered hanswers, if_neg hcK]
      · rcases hkeep d dl ⟨hd.live, hd.heap⟩ with ⟨-, rfl⟩ | ⟨-, hd₀⟩
        · exact absurd (hfd ▸ hK) hcK
        · exact ⟨dl, hd₀, hK, (h.queue hd₀ hK _).symm⟩

/-- What comes in on another descriptor does not come from `K`. -/
private theorem Machine.Accounts.hears_elsewhere {cmds logins : Nat} (h : m.Accounts K cmds logins) {rest : List Fd}
    {input : Input} {draw : StartDraw} (hphase : m.phase = .scan (fd :: rest)) {c : Addr} {cl : Client}
    (hc : LiveClient m.server c cl) (hK : m.session cl.socketFd = some K) (hfd : cl.socketFd ≠ fd) :
    m.hears K (.receive input draw) = [] := by
  cases input with
  | closed => rfl
  | text text =>
    have hother : m.heard fd ≠ some K := by
      intro hheard
      have hown : m.owner cl.socketFd = some K := by
        rcases h.sessions.status c cl hc with hatt | hleave
        · rw [hatt.owner, ← hatt.session, hK]
        · rw [hleave.session] at hK
          cases hK
      exact hfd (h.owners _ _ K hown (Machine.heard_some hheard).1)
    simp [Machine.hears, Machine.heardText, hphase, hother]

/-- A message that is handled, after which the connection is kept or closed. -/
private theorem Machine.Accounts.progress_message {cmds logins : Nat} (h : m.Accounts K cmds logins)
    {text : Option ClientMessage} {rest : List Fd} {draw : StartDraw} {k : Conn} {ret : Ret}
    (hphase : m.phase = .scan (fd :: rest)) (hheard : m.heard fd = some k)
    (hmsg : handleClientMessage cfg m.server k fd draw text = some (ret, s₁))
    (hserver : m'.server.clients = s₁.clients ∧ m'.server.clientHeap = s₁.clientHeap)
    (hsession : ∀ fd k, m'.session fd = some k → m.session fd = some k)
    (hwire : m'.wire = ({ m with server := s₁ } : Machine).deliver.wire) :
    Progress K m (.receive (.text text) draw) m' [] (m.service K []).queue := by
  obtain ⟨-, hfd⟩ := Machine.heard_some hheard
  have hhears : m.session fd = some K → m.hears K (.receive (.text text) draw) = text.toList := by
    intro hK
    have hk : m.heard fd = some K := by rw [hheard, ← hfd, hK]
    simp [Machine.hears, Machine.heardText, hphase, hk]
  have hwireTo : m'.wireTo K = m.wireTo K ++ toConn m.session K s₁.outbox := by
    have hdelivered := wireTo_deliver { m with server := s₁ } K
    unfold Machine.wireTo at *
    rw [hwire]
    exact hdelivered
  have hnone : answered (toConn m.session K s₁.outbox) = [] := by
    refine countKind_answer_eq_zero (Nat.le_zero.1 ?_)
    exact ((handleClientMessage_receipt h.sessions.game.wf hmsg).gain h.outbox m.session).answers
  constructor
  case queue => exact fun _ => rfl
  case answers => rw [hwireTo, answered_append, hnone]
  case clients =>
    intro d dl hd hK
    have hd₁ : LiveClient s₁ d dl :=
      ⟨by rw [Server.live, ← hserver.1]; exact hd.live, by rw [← hserver.2]; exact hd.heap⟩
    have hkd := hsession _ _ hK
    rcases handleClientMessage_takes h.sessions.game.wf h.sessions.game.unique hmsg d dl hd₁ with
      ⟨hzero, hfresh, hlogin⟩ | ⟨dl₀, taken, hd₀, htaking⟩
    · rw [hfresh] at hkd
      exact Or.inl ⟨hzero, by rw [hhears hkd]; exact hlogin⟩
    · have hdl : dl.socketFd = dl₀.socketFd := (Client.identity_eq htaking.ident).1
      have hk₀ := hdl ▸ hkd
      refine Or.inr ⟨dl₀, taken, hd₀, hk₀, by rw [htaking.owed, h.queue hd₀ hk₀], ?_⟩
      have hsub := htaking.sub
      by_cases hdfd : dl.socketFd = fd
      · rw [if_pos hdfd] at hsub
        rw [hhears (hdfd ▸ hkd)]
        refine ⟨hsub, fun hroom hknown => htaking.all hdfd hroom fun msg htext => hknown msg ?_⟩
        rw [htext]
        exact List.mem_singleton.2 rfl
      · -- only the client on the descriptor takes the command
        rw [if_neg hdfd] at hsub
        rw [h.hears_elsewhere hphase hd₀ hk₀ (hdl ▸ hdfd)]
        exact ⟨hsub, fun _ _ => List.eq_nil_of_sublist_nil hsub⟩

theorem Machine.Accounts.progress {cmds logins : Nat} (h : m.Accounts K cmds logins)
    (hstep : machineStep cfg m act = some m') : ∃ names rest, Progress K m act m' names rest := by
  have hmove := machineStep_move hstep
  have hsame := hmove
  have hkilled : ∀ s₀ fd, (gameKillPlayer s₀ fd).clients = s₀.clients ∧
      (gameKillPlayer s₀ fd).clientHeap = s₀.clientHeap := fun s₀ fd =>
    ⟨(gameKillPlayer_same s₀ fd).1, (gameKillPlayer_same s₀ fd).2.1⟩
  cases hmove with
  | @welcomed fd k rest hphase hq howner =>
    refine ⟨_, _, h.progress_still hsame ⟨rfl, rfl⟩ ?_ fun _ _ _ _ => rfl⟩
    have hwire := wireTo_deliver { m with
      finished := rest
      session := Function.update m.session fd (some k)
      server := { m.server with maxFd := max m.server.maxFd fd }.createJsonResponse fd "bienvenue"
        "Whoa! Knock knock, whos there?" none } K
    refine (congrArg answered hwire).trans ?_
    rw [answered_append]
    refine (congrArg _ (answered_eq_nil fun msg hmsg => ?_)).trans (List.append_nil _)
    obtain ⟨e, he, -, rfl⟩ := mem_toConn hmsg
    have hgreeting : e.2 = [("type", .str "bienvenue"), ("msg", .str "Whoa! Knock knock, whos there?")] := by
      simp only [Server.createJsonResponse, Server.send, h.outbox] at he
      rw [List.mem_singleton.1 he]
      rfl
    rw [hgreeting]
    decide
  | @hangUp fd rest input draw hphase =>
    refine ⟨_, _, h.progress_still hsame (hkilled _ _) rfl fun c cl hc hK => ?_⟩
    have hfd : cl.socketFd ≠ fd := by
      rintro rfl
      have hnone : Function.update m.session cl.socketFd none cl.socketFd = some K := hK
      rw [Function.update_self] at hnone
      cases hnone
    exact h.hears_elsewhere hphase hc (hsame.session_back h.sessions hc hK) hfd
  | message hphase hheard hmsg =>
    refine ⟨_, _, h.progress_message hphase hheard hmsg ?_ ?_ ?_⟩
    · exact ⟨rfl, rfl⟩
    · exact fun _ _ hk => hk
    · rfl
  | misbehaved hphase hheard hmsg =>
    refine ⟨_, _, h.progress_message hphase hheard hmsg ?_ ?_ ?_⟩
    · exact hkilled _ _
    · exact fun _ _ hk => update_none_some hk
    · rfl
  | remove hphase => exact ⟨_, _, h.progress_still hsame (hkilled _ _) rfl fun _ _ _ _ => rfl⟩
  | playSlot hphase hi hplay => exact h.progress_turn hplay
  | @playServer chance s₁ hphase hplay =>
    obtain ⟨hheap, hclients, -, hout⟩ := processServer_same h.sessions.game.wf hplay
    have hwire := wireTo_deliver { m with server := s₁, phase := .lookup } K
    refine ⟨_, _, h.progress_still hsame ⟨hclients, hheap⟩ ((congrArg answered hwire).trans ?_) fun _ _ _ _ => rfl⟩
    dsimp only
    rw [hout, h.outbox]
    exact congrArg answered (List.append_nil _)
  | _ => exact ⟨_, _, h.progress_still hsame ⟨rfl, rfl⟩ rfl fun _ _ _ _ => rfl⟩

/-- Every step of the machine is a sequence of steps of the service of `K`. -/
private theorem Progress.serves {names rest : List String} (h : Progress K m act m' names rest) (asked : List String) :
    Steps (m.service K asked) (m'.service K (asked ++ commandNames (m.hears K act))) := by
  have hstart : m.service K asked = ⟨asked, names ++ rest, answered (m.wireTo K)⟩ := by
    rw [← h.queue asked]
    rfl
  have hanswer : Steps (m.service K asked) ⟨asked, rest, answered (m'.wireTo K)⟩ := by
    rw [hstart, h.answers]
    exact Steps.answer rfl
  have hgive : (m'.service K (asked ++ commandNames (m.hears K act))).queue = [] →
      Steps (m.service K asked) (m'.service K (asked ++ commandNames (m.hears K act))) := by
    intro hnone
    have hend : m'.service K (asked ++ commandNames (m.hears K act)) =
        ⟨asked ++ commandNames (m.hears K act), [], answered (m'.wireTo K)⟩ := by
      rw [← hnone]
      rfl
    rw [hend]
    exact (hanswer.trans (Steps.ask (List.nil_sublist _))).tail (.giveUp _)
  cases hcl : m'.clientOf K with
  | none => exact hgive (by rw [Machine.service, hcl]; rfl)
  | some cl =>
    obtain ⟨c, hc, hK⟩ := clientOf_some hcl
    have howed : (m'.service K (asked ++ commandNames (m.hears K act))).queue = cl.eventBuffer.owed := by
      rw [Machine.service, hcl]
      rfl
    rcases h.clients c cl hc hK with ⟨hzero, -⟩ | ⟨cl₀, taken, -, -, htaken, hsub, -⟩
    · exact hgive (howed.trans (EventBuffer.owed_zero hzero))
    · have hend : m'.service K (asked ++ commandNames (m.hears K act)) =
          ⟨asked ++ commandNames (m.hears K act), rest ++ taken, answered (m'.wireTo K)⟩ := by
        rw [← htaken, ← howed]
        rfl
      rw [hend]
      exact hanswer.trans (Steps.ask hsub)

/-! ### Runs -/

private theorem service_init (width height : Nat) (teams : List String) (nbClients : Nat)
    (counts : Nat → InventoryType → Nat) :
    (machineInit cfg width height teams nbClients counts).service K [] = ⟨[], [], []⟩ := by
  have hnobody : (machineInit cfg width height teams nbClients counts).clientOf K = none := by
    cases hcl : (machineInit cfg width height teams nbClients counts).clientOf K with
    | none => rfl
    | some cl =>
      obtain ⟨c, hc, -⟩ := clientOf_some hcl
      cases hc.heap
  unfold Machine.service
  rw [hnobody]
  rfl

/-- Along every guarded run the machine refines the service of `K`. -/
private theorem service_run (cfg : Config) (width height : Nat) (teams : List String) (nbClients : Nat)
    (counts : Nat → InventoryType → Nat) (K : Conn) (as : List MachineAction) {m : Machine}
    (hG : Guarded (machineStep cfg) SessionGuard (machineInit cfg width height teams nbClients counts) as)
    (h : run (machineStep cfg) (machineInit cfg width height teams nbClients counts) as = some m) :
    let received := outputs (machineStep cfg) (fun m act => m.hears K act)
      (machineInit cfg width height teams nbClients counts) as
    m.Accounts K (commandsIn received) (loginsIn received) ∧
      Steps ⟨[], [], []⟩ (m.service K (commandNames received)) := by
  intro received
  let I := fun (l : List ClientMessage) (m : Machine) =>
    m.Accounts K (commandsIn l) (loginsIn l) ∧ Steps ⟨[], [], []⟩ (m.service K (commandNames l))
  have hstep : ∀ l m act m', machineStep cfg m act = some m' → SessionGuard m act → I l m →
      I (l ++ m.hears K act) m' := by
    intro l m act m' hstep hG hI
    refine ⟨?_, ?_⟩
    · rw [commandsIn_append, loginsIn_append]
      exact hI.1.step hG hstep
    · obtain ⟨names, rest, hprogress⟩ := hI.1.progress hstep
      rw [commandNames_append]
      exact hI.2.trans (hprogress.serves _)
  have hstart : I [] (machineInit cfg width height teams nbClients counts) :=
    ⟨accounts_init cfg width height teams nbClients counts K, by rw [commandNames_nil, service_init]⟩
  exact hG.outputs hstep h hstart

/-- In every run in which no two clients come to share a descriptor, the commands that were answered on a connection,
followed by those that are queued for its client, are some of the commands received on it, in that order and each
at most once. -/
theorem answers_in_order (cfg : Config) (width height : Nat) (teams : List String) (nbClients : Nat)
    (counts : Nat → InventoryType → Nat) (K : Conn) (as : List MachineAction) {m : Machine}
    (hG : Guarded (machineStep cfg) SessionGuard (machineInit cfg width height teams nbClients counts) as)
    (h : run (machineStep cfg) (machineInit cfg width height teams nbClients counts) as = some m) :
    let received := outputs (machineStep cfg) (fun m act => m.hears K act)
      (machineInit cfg width height teams nbClients counts) as
    (answered (m.wireTo K)).Sublist (commandNames received) ∧
      ∀ c cl, LiveClient m.server c cl → m.session cl.socketFd = some K →
        (answered (m.wireTo K) ++ cl.eventBuffer.owed).Sublist (commandNames received) := by
  intro received
  obtain ⟨haccounts, hsteps⟩ := service_run cfg width height teams nbClients counts K as hG h
  have horder : InOrder (m.service K (commandNames received)) := hsteps.inOrder (.refl _)
  refine ⟨(List.sublist_append_left _ _).trans horder, fun c cl hc hK => ?_⟩
  rw [← haccounts.queue hc hK (commandNames received)]
  exact horder

/-- A player logs in and sends two commands, the first of which is due. -/
def looksAndWalks : List MachineAction :=
  oneLogin ++ scanPass [4] [.receive (.text (some look)) ⟨0, 0, 0⟩] 0 ++
    scanPass [4] [.receive (.text (some { type := "cmd", cmd := "avance" })) ⟨0, 0, 0⟩] 0 ++
    [.lookupEnd, .select [], .tick 7, .playSlot {}, .playSlot {}, .playServer {}]

theorem answers_in_order_walk : ∃ (m : Machine) (c : Addr) (cl : Client),
    run (machineStep shippedConfig) shippedMachine looksAndWalks = some m ∧ LiveClient m.server c cl ∧
    answered (m.wireTo 1) = ["voir"] ∧ cl.eventBuffer.owed = ["avance"] ∧
    ["voir", "avance"].Sublist (commandNames
      (outputs (machineStep shippedConfig) (fun m act => m.hears 1 act) shippedMachine looksAndWalks)) := by
  have hrun : ((run (machineStep shippedConfig) shippedMachine looksAndWalks).bind fun m =>
      (m.server.clientHeap 0).map fun cl =>
        (m.server.live, m.session cl.socketFd, answered (m.wireTo 1), cl.eventBuffer.owed)) =
      some ([0], some 1, ["voir"], ["avance"]) := by decide +kernel
  have hguard : testGuard (machineStep shippedConfig) sessionTest shippedMachine looksAndWalks := by decide +kernel
  obtain ⟨m, hm, hmap⟩ := Option.bind_eq_some_iff.1 hrun
  obtain ⟨cl, hcl, hfacts⟩ := Option.map_eq_some_iff.1 hmap
  simp only [Prod.mk.injEq] at hfacts
  obtain ⟨hlive, hK, hanswered, howed⟩ := hfacts
  have hc : LiveClient m.server 0 cl := ⟨by rw [hlive]; exact List.mem_singleton.2 rfl, hcl⟩
  obtain ⟨-, horder⟩ := answers_in_order shippedConfig 1 1 ["red"] 2 (fun _ _ => 0) 1 looksAndWalks
    (.of_test sessionGuard_of_test hguard) hm
  have hsub := horder 0 cl hc hK
  rw [hanswered, howed] at hsub
  exact ⟨m, 0, cl, hm, hc, hanswered, howed, hsub⟩

end Zappy

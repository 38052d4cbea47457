import Zappy.Journeys
import Zappy.Rituals
import Zappy.Turns

/-!
# Who holds the copies of arguments (`time_api.c`, `game.c`)

`game_execute_command` copies the argument of a command, and `m_command_incantation` makes a string of the level.  A
copy lies in one slot of the buffer of a client until it is released, after the callback of its event or when the
client is removed.  Each step is followed by the number of slots that hold an address and the number of times that the
address was released.
-/

namespace Zappy

open LinkedList Relation RingBuffer Run Slots

variable {cfg : Config} {s s' s₁ s₂ : Server} {c d p a : Addr} {cl : Client} {pl : Player} {b b' : EventBuffer}
  {ev : Event} {i : Nat}

/-! ### Buffers -/

/-- The address of an argument, if there is one. -/
def argAddr (arg : Option Arg) : List Addr := (arg.map Arg.addr).toList

/-- How often the event holds the copy at `a`. -/
def Event.holds (ev : Event) (a : Addr) : Nat := (argAddr ev.arg).count a

/-- The number of slots of the buffer, queued or not, that hold the copy at `a`. -/
def EventBuffer.holds (b : EventBuffer) (a : Addr) : Nat := ∑ i ∈ Finset.range maxEvents, (b.events i).holds a

/-- Slots outside the queued window hold nothing. -/
def EventBuffer.Tidy (b : EventBuffer) : Prop :=
  ∀ i < maxEvents, Outside maxEvents b.head b.count i → (b.events i).arg = none

private theorem argAddr_eq_nil {arg : Option Arg} : argAddr arg = [] ↔ arg = none := by
  cases arg <;> simp [argAddr]

private theorem holds_none (h : ev.arg = none) (a : Addr) : ev.holds a = 0 := by
  rw [Event.holds, argAddr_eq_nil.2 h, List.count_nil]

private theorem holds_zero (a : Addr) : ({} : EventBuffer).holds a = 0 :=
  Finset.sum_eq_zero fun _ _ => holds_none rfl a

private theorem tidy_zero : ({} : EventBuffer).Tidy := fun _ _ _ => rfl

/-- An event is written to a slot. -/
private theorem holds_update (hi : i < maxEvents) (h : b'.events = Function.update b.events i ev) (a : Addr) :
    b'.holds a + (b.events i).holds a = b.holds a + ev.holds a := by
  have hsum := sum_range_update hi (fun j => (b.events j).holds a) (ev.holds a)
  have hterm : (fun j => (b'.events j).holds a) = Function.update (fun j => (b.events j).holds a) i (ev.holds a) := by
    funext j
    rw [h, Function.update_apply, Function.update_apply]
    split <;> rfl
  rw [EventBuffer.holds, EventBuffer.holds, hterm]
  exact hsum

/-- An event takes a slot that holds nothing, and the window grows by that slot. -/
theorem Tidy.grow {e : Event} (hb : b.Tidy) (hi : i < maxEvents) (hfree : Outside maxEvents b.head b.count i)
    (hevents : b'.events = Function.update b.events i e)
    (hwindow : ∀ j, Outside maxEvents b'.head b'.count j → i ≠ j ∧ Outside maxEvents b.head b.count j) :
    b'.Tidy ∧ ∀ a, b'.holds a = b.holds a + e.holds a := by
  constructor
  · intro j hj hout
    obtain ⟨hne, hout⟩ := hwindow j hout
    rw [hevents, Function.update_of_ne (Ne.symm hne)]
    exact hb j hj hout
  · intro a
    have hsum := holds_update hi hevents a
    rwa [holds_none (hb i hi hfree), Nat.add_zero] at hsum

section Operations

variable {now : Nat} {delay : Int} {cb : Option Callback} {data : Option Addr} {arg : Option Arg} {origin : Conn}

/-- A scheduled event takes a slot that holds nothing. -/
private theorem schedule_holds (hwf : b.WF) (hb : b.Tidy)
    (h : timeApiScheduleClientEvent now b delay cb data arg origin = some b') :
    b'.Tidy ∧ ∀ a, b'.holds a = b.holds a + (argAddr arg).count a := by
  unfold timeApiScheduleClientEvent at h
  split at h
  · cases h
  · rename_i hroom
    have hroom : b.count < maxEvents := Nat.lt_of_not_le hroom
    cases h
    have htail : b.tail < maxEvents := by
      rw [hwf.tail]
      exact Nat.mod_lt _ (by decide)
    refine Tidy.grow (e := ⟨_, cb, data, arg, origin⟩) hb htail (hwf.tail ▸ outside_back hroom) rfl fun j hj => ?_
    obtain ⟨hout, hlast⟩ := outside_succ.1 hj
    exact ⟨hwf.tail ▸ hlast, hout⟩

private theorem front_events (h : timeApiScheduleClientEventFront now b delay cb data arg origin = some b') :
    b'.head = (b.head + maxEvents - 1) % maxEvents ∧ b'.count = b.count + 1 ∧
      b'.events = Function.update b.events ((b.head + maxEvents - 1) % maxEvents)
        ⟨u64 (now + delay), cb, data, arg, origin⟩ := by
  unfold timeApiScheduleClientEventFront at h
  split at h
  · cases h
  · cases h
    exact ⟨rfl, rfl, rfl⟩

/-- So does one that is scheduled at the front. -/
private theorem scheduleFront_holds (hwf : b.WF) (hb : b.Tidy)
    (h : timeApiScheduleClientEventFront now b delay cb data arg origin = some b') :
    b'.Tidy ∧ ∀ a, b'.holds a = b.holds a + (argAddr arg).count a := by
  obtain ⟨hhead, hcount, hevents⟩ := front_events h
  have hroom := (scheduleFront_spec hwf h).1
  refine Tidy.grow hb (Nat.mod_lt _ (by decide)) (outside_front hroom) hevents fun j hj => ?_
  rw [hhead, hcount] at hj
  exact (outside_push_front hwf.head).1 hj

/-- After its first event is taken out, the slot of that event alone may hold something outside the window. -/
private theorem pop_outside (hwf : b.WF) (hb : b.Tidy) (hcount : 0 < b.count) {j : Nat} (hj : j < maxEvents)
    (hout : Outside maxEvents b.pop.head b.pop.count j) (hne : b.head ≠ j) : (b.events j).arg = none := by
  refine hb j hj ?_
  have hpos : b.count = b.count - 1 + 1 := by omega
  rw [hpos]
  exact (outside_cons hwf.head).2 ⟨hne, hout⟩

/-- The argument of the first event is released. -/
private theorem release_holds (hwf : b.WF) (hb : b.Tidy) (hcount : 0 < b.count) :
    (b.pop.clearArg b.head).Tidy ∧
      ∀ a, (b.pop.clearArg b.head).holds a + (b.events b.head).holds a = b.holds a := by
  constructor
  · intro j hj hout
    change ((Function.update b.events b.head _) j).arg = none
    by_cases hne : b.head = j
    · rw [← hne, Function.update_self]
    · rw [Function.update_of_ne (Ne.symm hne)]
      exact pop_outside hwf hb hcount hj hout hne
  · intro a
    have hcleared : ({ b.events b.head with arg := none } : Event).holds a = 0 := holds_none rfl a
    have hsum : (b.pop.clearArg b.head).holds a + (b.events b.head).holds a =
        b.holds a + ({ b.events b.head with arg := none } : Event).holds a := holds_update hwf.head rfl a
    rwa [hcleared, Nat.add_zero] at hsum

/-- The first event has no argument. -/
private theorem pop_holds (hwf : b.WF) (hb : b.Tidy) (hcount : 0 < b.count) (harg : (b.events b.head).arg = none) :
    b.pop.Tidy := by
  intro j hj hout
  by_cases hne : b.head = j
  · exact hne ▸ harg
  · exact pop_outside hwf hb hcount hj hout hne

/-- A completion that is put in front of the buffer whose first event is running takes the slot of that event. -/
private theorem front_pop_holds (hwf : b.WF) (hb : b.Tidy) (hcount : 0 < b.count)
    (h : timeApiScheduleClientEventFront now b.pop delay cb data arg origin = some b') :
    b'.head = b.head ∧ b'.Tidy ∧ ∀ a, b'.holds a + (b.events b.head).holds a =
      b.holds a + (argAddr arg).count a := by
  obtain ⟨hhead, hcount', hevents⟩ := front_events h
  have hpop := EventBuffer.pop_wf hwf hcount
  have hback : (b.pop.head + maxEvents - 1) % maxEvents = b.head := by
    have hlt := hwf.head
    have h10 : maxEvents = 10 := rfl
    simp only [EventBuffer.pop, h10] at *
    omega
  rw [hback] at hhead hevents
  refine ⟨hhead, fun j hj hout => ?_, fun a => holds_update hwf.head hevents a⟩
  rw [hhead, hcount', ← hback, outside_push_front hpop.head, hback] at hout
  rw [hevents, Function.update_of_ne (Ne.symm hout.1)]
  exact pop_outside hwf hb hcount hj hout.2 hout.1

end Operations

/-! ### Clients -/

/-- The number of slots, in the buffers of the clients of the table, that hold the copy at `a`. -/
def Server.holds (s : Server) (a : Addr) : Nat := (s.live.map fun c => (s.clientBuffer c).holds a).sum

/-- The copies made on the way from `s` to `s'`: the new addresses that are neither a client's nor a player's. -/
def Server.copied (s s' : Server) : List Addr :=
  (List.range' s.nextAddr (s'.nextAddr - s.nextAddr)).filter fun a =>
    (s'.clientHeap a).isNone && (s'.playerHeap a).isNone

/-- Every copy held or made before is held or released after, but for the lost ones. -/
def Balanced (s s' : Server) (made lost : List Addr) : Prop :=
  ∀ a, s'.released.count a + s'.holds a + lost.count a = s.released.count a + s.holds a + made.count a

/-- A client whose copies lie in the queued window, which calls back commands and completions only, and whose
descriptor is at most `maxFd`. -/
structure Client.Orderly (cl : Client) (maxFd : Fd) : Prop where
  tidy : cl.eventBuffer.Tidy
  calls : ∀ i, (cl.eventBuffer.events i).callback ≠ some .spawnResources
  fd : cl.socketFd ≤ maxFd

/-- All clients of the table are orderly, and the buffer of the server holds no copies. -/
structure Orderly (s : Server) : Prop where
  client : ∀ c cl, LiveClient s c cl → cl.Orderly s.maxFd
  server : ∀ i, (s.eventBuffer.events i).arg = none

/-- The clients, their buffers and the addresses are the same. -/
structure SameCopies (s s' : Server) : Prop where
  clients : s'.clients = s.clients
  clientHeap : s'.clientHeap = s.clientHeap
  players : ∀ p, (s'.playerHeap p).isNone = (s.playerHeap p).isNone
  eventBuffer : s'.eventBuffer = s.eventBuffer
  maxFd : s.maxFd ≤ s'.maxFd
  released : s'.released = s.released
  nextAddr : s'.nextAddr = s.nextAddr

theorem SameCopies.refl (s : Server) : SameCopies s s := ⟨rfl, rfl, fun _ => rfl, rfl, Nat.le_refl _, rfl, rfl⟩

theorem SameCopies.trans (h : SameCopies s s₁) (h' : SameCopies s₁ s') : SameCopies s s' where
  clients := h'.clients.trans h.clients
  clientHeap := h'.clientHeap.trans h.clientHeap
  players p := (h'.players p).trans (h.players p)
  eventBuffer := h'.eventBuffer.trans h.eventBuffer
  maxFd := Nat.le_trans h.maxFd h'.maxFd
  released := h'.released.trans h.released
  nextAddr := h'.nextAddr.trans h.nextAddr

theorem SameCopies.live (h : SameCopies s s') : s'.live = s.live := by
  rw [Server.live, h.clients]
  rfl

theorem SameCopies.liveClient (h : SameCopies s s') (hc : LiveClient s' c cl) : LiveClient s c cl :=
  ⟨h.live ▸ hc.live, h.clientHeap ▸ hc.heap⟩

private theorem holds_congr (hlive : s'.live = s.live) (hheap : s'.clientHeap = s.clientHeap) (a : Addr) :
    s'.holds a = s.holds a := by
  rw [Server.holds, Server.holds, hlive]
  refine congrArg List.sum (List.map_congr_left fun c _ => ?_)
  rw [Server.clientBuffer, Server.clientBuffer, hheap]

theorem SameCopies.orderly (h : SameCopies s s') (hs : Orderly s) : Orderly s' := by
  constructor
  case client =>
    intro c cl hc
    have hcl := hs.client c cl (h.liveClient hc)
    exact ⟨hcl.tidy, hcl.calls, Nat.le_trans hcl.fd h.maxFd⟩
  case server =>
    rw [h.eventBuffer]
    exact hs.server

private theorem copied_same (h : s'.nextAddr = s.nextAddr) : s.copied s' = [] := by
  rw [Server.copied, h, Nat.sub_self]
  rfl

theorem SameCopies.copied (h : SameCopies s₁ s') (s : Server) : s.copied s' = s.copied s₁ := by
  rw [Server.copied, Server.copied, h.nextAddr]
  refine List.filter_congr fun a _ => ?_
  rw [h.clientHeap, h.players]

/-- One string is copied. -/
private theorem copied_one (h : s'.nextAddr = s.nextAddr + 1) (hclient : s'.clientHeap s.nextAddr = none)
    (hplayer : s'.playerHeap s.nextAddr = none) : s.copied s' = [s.nextAddr] := by
  rw [Server.copied, h, Nat.add_sub_cancel_left, List.range'_one, List.filter_singleton, hclient, hplayer]
  rfl

/-- A buffer is written. -/
private theorem setClientBuffer_holds (hlive : s.live.Nodup) (hc : LiveClient s c cl) (b : EventBuffer) (a : Addr) :
    (s.setClientBuffer c b).holds a + cl.eventBuffer.holds a = s.holds a + b.holds a := by
  have hsum := sum_map_replace hlive (f := fun d => (s.clientBuffer d).holds a)
    (g := fun d => ((s.setClientBuffer c b).clientBuffer d).holds a) hc.live fun d _ hd => by
      rw [setClientBuffer_clientBuffer hc.heap, if_neg hd]
  rwa [clientBuffer_eq hc.heap, setClientBuffer_clientBuffer hc.heap, if_pos rfl] at hsum

theorem Orderly.setClientBuffer (h : Orderly s) (hcl : s.clientHeap c = some cl) (htidy : b.Tidy)
    (hcalls : c ∈ s.live → ∀ i, (b.events i).callback ≠ some .spawnResources) : Orderly (s.setClientBuffer c b) := by
  constructor
  case client =>
    intro d dl hd
    rcases setClientBuffer_liveClient hcl hd with ⟨-, hd⟩ | ⟨rfl, hc, rfl⟩
    · exact h.client d dl hd
    · exact ⟨htidy, hcalls hc.live, (h.client d cl hc).fd⟩
  case server => exact h.server

/-! ### Callbacks -/

private theorem setClientBuffer_finds (hcl : s.clientHeap c = some cl) (b : EventBuffer) (fd : Fd) :
    (s.setClientBuffer c b).gameGetClientFromFd fd = s.gameGetClientFromFd fd := by
  have hslot : ∀ d : Addr, (((s.setClientBuffer c b).clientHeap d).bind fun dl =>
      if dl.socketFd = fd then some d else none) =
        (s.clientHeap d).bind fun dl => if dl.socketFd = fd then some d else none := by
    intro d
    rw [setClientBuffer_heap b hcl]
    by_cases hd : d = c
    · rw [if_pos hd, hd, hcl]
      rfl
    · rw [if_neg hd]
  rw [Server.gameGetClientFromFd, Server.gameGetClientFromFd]
  refine congrArg₂ List.findSome? ?_ rfl
  funext slot
  exact congrArg _ (funext hslot)

/-- The event begins an incantation of `pl`, whose completion is put in front of the buffer of `d`. -/
structure Begins (s : Server) (ev : Event) (pl : Player) (d : Addr) : Prop where
  callback : ev.callback = some (.command .incantation)
  player : ev.data.bind s.playerHeap = some pl
  can : gameCheckCanIncantation s pl true = some .success
  finds : s.gameGetClientFromFd pl.id = some d

private theorem begins_setClientBuffer (hcl : s.clientHeap c = some cl) (b : EventBuffer) :
    Begins (s.setClientBuffer c b) ev pl d ↔ Begins s ev pl d := by
  have hfinds := setClientBuffer_finds hcl b pl.id
  constructor
  · intro h
    exact ⟨h.callback, h.player, h.can, hfinds ▸ h.finds⟩
  · intro h
    exact ⟨h.callback, h.player, h.can, hfinds.trans h.finds⟩

/-- Other commands than `incantation` make no copies. -/
private theorem SameControl.sameCopies (h : SameControl p s s') : SameCopies s s' := by
  have hplayers : ∀ q, (s'.playerHeap q).isNone = (s.playerHeap q).isNone := by
    intro q
    have hlevel := congrArg Option.isNone (congrFun h.level q)
    rwa [Server.levelOf, Server.levelOf, Option.isNone_map, Option.isNone_map] at hlevel
  have hrest := h.rest
  constructor
  case players => exact hplayers
  case maxFd => rw [hrest]
  all_goals rw [hrest]

private theorem commandRealIncantation_sameCopies {arg : Option Arg} (h : commandRealIncantation s p pl arg = some s') :
    SameCopies s s' := by
  have hplayers : ∀ q, (s'.playerHeap q).isNone = (s.playerHeap q).isNone := by
    intro q
    have hvitals := congrArg Option.isNone (congrFun (commandRealIncantation_vitals h) q)
    rwa [Server.vitalsOf, Server.vitalsOf, Option.isNone_map, Option.isNone_map] at hvitals
  have hrest := commandRealIncantation_control h
  constructor
  case players => exact hplayers
  case maxFd => rw [hrest]
  all_goals rw [hrest]

/-- The level string is made, and put in front of the buffer of `d` if there is room. -/
inductive LevelMade (s : Server) (d : Addr) : Server → Prop
  | dropped {dl : Client} {text : String} (hdl : s.clientHeap d = some dl) (hfull : maxEvents ≤ dl.eventBuffer.count) :
      LevelMade s d (s.strdup text).2
  | queued {dl : Client} {text : String} {delay : Int} {data : Option Addr} {origin : Conn} {b : EventBuffer}
      (hdl : s.clientHeap d = some dl)
      (hb : timeApiScheduleClientEventFront s.now dl.eventBuffer delay (some .realIncantation) data
        (some ⟨s.nextAddr, text⟩) origin = some b) :
      LevelMade s d ((s.strdup text).2.setClientBuffer d b)

private theorem queueCompletion_copies {origin : Conn} (hfinds : s.gameGetClientFromFd pl.id = some d) :
    ∃ s₁, LevelMade s d s₁ ∧ SameCopies s₁ (queueCompletion cfg s p pl origin) := by
  have hsent : ∀ s₁ : Server, SameCopies s₁
      (s₁.createResponseToCommand pl.id "incantation" none (some "in_progress")) := fun s₁ =>
    ⟨rfl, rfl, fun _ => rfl, rfl, Nat.le_refl _, rfl, rfl⟩
  obtain ⟨-, dl, hdl, -⟩ := gameGetClientFromFd_some hfinds
  by_cases hroom : dl.eventBuffer.count < maxEvents
  · obtain ⟨b, hb, hqueue⟩ := queueCompletion_room cfg p origin hfinds hdl hroom
    rw [hqueue]
    exact ⟨_, .queued hdl hb, hsent _⟩
  · rcases queueCompletion_cases cfg s p pl origin with ⟨hnone, -⟩ | ⟨d', dl', hfinds', hdl', s₁, hqueue, hor⟩
    · rw [hnone] at hfinds
      cases hfinds
    · obtain rfl := Option.some.inj (hfinds.symm.trans hfinds')
      obtain rfl := Option.some.inj (hdl.symm.trans hdl')
      rw [hqueue]
      rcases hor with rfl | ⟨b, hb, rfl⟩
      · exact ⟨_, .dropped hdl (by omega), hsent _⟩
      · exact ⟨_, .queued hdl hb, hsent _⟩

private theorem commandIncantation_copies {origin : Conn} (hdata : ev.data = some p) (hpl : s.playerHeap p = some pl)
    (hcb : ev.callback = some (.command .incantation)) (h : commandIncantation cfg s p pl origin = some s') :
    (SameCopies s s' ∧ ∀ pl d, ¬ Begins s ev pl d) ∨
      ∃ pl d s₀ s₁, Begins s ev pl d ∧ SameCopies s s₀ ∧ LevelMade s₀ d s₁ ∧ SameCopies s₁ s' := by
  have hplayer : ev.data.bind s.playerHeap = some pl := by rw [hdata, Option.bind_some, hpl]
  have hbegins : ∀ {pl' d}, Begins s ev pl' d →
      gameCheckCanIncantation s pl true = some .success ∧ s.gameGetClientFromFd pl.id = some d := by
    intro pl' d hb
    obtain rfl := Option.some.inj (hplayer.symm.trans hb.player)
    exact ⟨hb.can, hb.finds⟩
  by_cases hcan : gameCheckCanIncantation s pl true = some .success
  · have hlevel := gameCheckCanIncantation_success hcan
    have hqueue : s' = queueCompletion cfg (payRitual s p pl) p pl origin := by
      rw [commandIncantation, if_neg (by omega), hcan] at h
      exact (Option.some.inj h).symm
    have hpaid : SameCopies s (payRitual s p pl) := ⟨rfl, rfl, fun _ => rfl, rfl, Nat.le_refl _, rfl, rfl⟩
    cases hfinds : s.gameGetClientFromFd pl.id with
    | none =>
      refine Or.inl ⟨?_, fun pl' d hb => ?_⟩
      · rcases queueCompletion_cases cfg (payRitual s p pl) p pl origin with ⟨-, hsame⟩ | ⟨d, dl, hfound, -⟩
        · rw [hqueue, hsame]
          exact hpaid
        · have hnone : (payRitual s p pl).gameGetClientFromFd pl.id = none := hfinds
          rw [hnone] at hfound
          cases hfound
      · have hfound := (hbegins hb).2
        rw [hfinds] at hfound
        cases hfound
    | some d =>
      have hfinds' : (payRitual s p pl).gameGetClientFromFd pl.id = some d := hfinds
      have hcopies : ∃ s₁, LevelMade (payRitual s p pl) d s₁ ∧ SameCopies s₁
          (queueCompletion cfg (payRitual s p pl) p pl origin) := queueCompletion_copies hfinds'
      obtain ⟨s₁, hmade, hsame⟩ := hcopies
      exact Or.inr ⟨pl, d, payRitual s p pl, s₁, ⟨hcb, hplayer, hcan, hfinds⟩, hpaid, hmade, hqueue ▸ hsame⟩
  · obtain rfl | ⟨hcan', -⟩ := commandIncantation_cases h
    · exact Or.inl ⟨⟨rfl, rfl, fun _ => rfl, rfl, Nat.le_refl _, rfl, rfl⟩, fun pl' d hb => hcan (hbegins hb).1⟩
    · exact absurd hcan' hcan

/-- The callback of an event of a client makes no copies, or begins an incantation. -/
private theorem runCallback_copies {chance : Chance} (hcalls : ev.callback ≠ some .spawnResources)
    (h : runCallback cfg chance ev s = some s') :
    (SameCopies s s' ∧ ∀ pl d, ¬ Begins s ev pl d) ∨
      ∃ pl d s₀ s₁, Begins s ev pl d ∧ SameCopies s s₀ ∧ LevelMade s₀ d s₁ ∧ SameCopies s₁ s' := by
  unfold runCallback at h
  split at h
  · rename_i hcb
    cases h
    exact Or.inl ⟨.refl _, fun pl d hb => by rw [hb.callback] at hcb; cases hcb⟩
  · rename_i hcb
    exact absurd hcb hcalls
  · rename_i type hcb
    simp only [Option.bind_eq_some_iff] at h
    obtain ⟨p, hdata, pl, hpl, h⟩ := h
    by_cases htype : type = .incantation
    · subst htype
      exact commandIncantation_copies hdata hpl hcb h
    · refine Or.inl ⟨(runCommand_control htype h).sameCopies, fun pl d hb => ?_⟩
      rw [hb.callback, Option.some.injEq, Callback.command.injEq] at hcb
      exact htype hcb.symm
  · rename_i hcb
    simp only [Option.bind_eq_some_iff] at h
    obtain ⟨p, hdata, pl, hpl, h⟩ := h
    exact Or.inl ⟨commandRealIncantation_sameCopies h, fun pl d hb => by rw [hb.callback] at hcb; cases hcb⟩

/-! ### The turn of a client -/

/-- All copies are handed over, but for some that are lost exactly if `drops`. -/
structure Handed (s s' : Server) (drops : Prop) : Prop where
  orderly : Orderly s'
  maxFd : s.maxFd ≤ s'.maxFd
  nextAddr : s.nextAddr ≤ s'.nextAddr
  balance : ∃ lost, Balanced s s' (s.copied s') lost ∧ (lost = [] ↔ ¬ drops)

theorem SameCopies.handed (h : SameCopies s s') (hs : Orderly s) : Handed s s' False := by
  refine ⟨h.orderly hs, h.maxFd, Nat.le_of_eq h.nextAddr.symm, [], fun a => ?_, by simp⟩
  rw [copied_same h.nextAddr, h.released, holds_congr h.live h.clientHeap]

theorem Handed.and_then {drops : Prop} (h : Handed s s₁ drops) (hsame : SameCopies s₁ s') : Handed s s' drops := by
  obtain ⟨lost, hbalance, hlost⟩ := h.balance
  have hnext := h.nextAddr
  rw [← hsame.nextAddr] at hnext
  refine ⟨hsame.orderly h.orderly, Nat.le_trans h.maxFd hsame.maxFd, hnext, lost, fun a => ?_, hlost⟩
  rw [hsame.copied, hsame.released, holds_congr hsame.live hsame.clientHeap]
  exact hbalance a

theorem Handed.of_iff {drops drops' : Prop} (h : Handed s s' drops) (hiff : drops ↔ drops') : Handed s s' drops' :=
  propext hiff ▸ h

/-- Arguments are released after the buffer of `c` is written. -/
def Server.settle (s : Server) (c : Addr) (b : EventBuffer) (freed : List Addr) : Server :=
  { s.setClientBuffer c b with released := s.released ++ freed }

theorem SameCopies.strdup (h : SameCopies s s') (text : String) :
    SameCopies (s.strdup text).2 (s'.strdup text).2 :=
  ⟨h.clients, h.clientHeap, h.players, h.eventBuffer, h.maxFd, h.released, congrArg (· + 1) h.nextAddr⟩

theorem SameCopies.setClientBuffer (h : SameCopies s s') (c : Addr) (b : EventBuffer) :
    SameCopies (s.setClientBuffer c b) (s'.setClientBuffer c b) := by
  refine ⟨h.clients, ?_, h.players, h.eventBuffer, h.maxFd, h.released, h.nextAddr⟩
  change Function.update s'.clientHeap c _ = Function.update s.clientHeap c _
  rw [h.clientHeap]

private theorem SameCopies.settle (h : SameCopies s s') (c : Addr) (b : EventBuffer) (freed : List Addr) :
    SameCopies (s.settle c b freed) (s'.settle c b freed) := by
  have hset := h.setClientBuffer c b
  exact ⟨hset.clients, hset.clientHeap, hset.players, hset.eventBuffer, hset.maxFd,
    congrArg (· ++ freed) h.released, hset.nextAddr⟩

private theorem settle_nil (s : Server) (c : Addr) (b : EventBuffer) : s.settle c b [] = s.setClientBuffer c b := by
  rw [Server.settle, List.append_nil]
  rfl

/-- A buffer that is written twice. -/
private theorem setClientBuffer_settle (s : Server) (c : Addr) (b b' : EventBuffer) (freed : List Addr) :
    (s.setClientBuffer c b).settle c b' freed = s.settle c b' freed := by
  have hheap : Function.update (Function.update s.clientHeap c ((s.clientHeap c).map fun cl =>
      { cl with eventBuffer := b })) c (((s.clientHeap c).map fun cl => { cl with eventBuffer := b }).map fun cl =>
        { cl with eventBuffer := b' }) =
      Function.update s.clientHeap c ((s.clientHeap c).map fun cl => { cl with eventBuffer := b' }) := by
    rw [Function.update_idem, Option.map_map]
    rfl
  simp only [Server.settle, Server.setClientBuffer, Server.modClient, Function.update_self, hheap]

private theorem setClientBuffer_comm (s : Server) (hne : c ≠ d) (b b' : EventBuffer) :
    (s.setClientBuffer c b).setClientBuffer d b' = (s.setClientBuffer d b').setClientBuffer c b := by
  simp only [Server.setClientBuffer, Server.modClient, Function.update_of_ne hne, Function.update_of_ne (Ne.symm hne),
    Function.update_comm hne]

/-- The event begins an incantation whose completion takes the slot of an argument, or finds no room. -/
def Event.Drops (ev : Event) (s : Server) (c : Addr) : Prop :=
  ∃ pl d, Begins s ev pl d ∧ (d = c ∧ ev.arg ≠ none ∨ d ≠ c ∧ maxEvents ≤ (s.clientBuffer d).count)

private theorem Begins.drops (h : Begins s ev pl d) :
    ev.Drops s c ↔ d = c ∧ ev.arg ≠ none ∨ d ≠ c ∧ maxEvents ≤ (s.clientBuffer d).count := by
  constructor
  · rintro ⟨pl', d', hb, hor⟩
    obtain rfl := Option.some.inj (h.player.symm.trans hb.player)
    obtain rfl := Option.some.inj (h.finds.symm.trans hb.finds)
    exact hor
  · exact fun hor => ⟨pl, d, h, hor⟩

/-- What `time_api_process_client_events` does after the callback has led to `s₂`. -/
def Ends (s₂ : Server) (c : Addr) (b : EventBuffer) (s' : Server) : Prop :=
  s' = s₂ ∧ (∀ x, ((s₂.clientBuffer c).events b.head).arg = some x → b.pop.head ≠ (s₂.clientBuffer c).head) ∨
    ∃ x, ((s₂.clientBuffer c).events b.head).arg = some x ∧ b.pop.head = (s₂.clientBuffer c).head ∧
      s' = (s₂.setClientBuffer c ((s₂.clientBuffer c).clearArg b.head)).release x.addr

/-- The argument of the first event is released, when its callback has left the rest of the buffer alone. -/
private theorem Ends.settles (h : Ends s₂ c cl.eventBuffer s') (hwf : cl.eventBuffer.WF) (hb : cl.eventBuffer.Tidy)
    (hcount : 0 < cl.eventBuffer.count) (hcl : s.clientHeap c = some cl)
    (hsame : SameCopies (s.setClientBuffer c cl.eventBuffer.pop) s₂) :
    ∃ b', b'.Tidy ∧ (∀ i, (b'.events i).callback = (cl.eventBuffer.events i).callback) ∧
      (∀ a, b'.holds a + (cl.eventBuffer.events cl.eventBuffer.head).holds a = cl.eventBuffer.holds a) ∧
      SameCopies (s.settle c b' (argAddr (cl.eventBuffer.events cl.eventBuffer.head).arg)) s' := by
  have hheap : s₂.clientHeap c = some { cl with eventBuffer := cl.eventBuffer.pop } := by
    rw [hsame.clientHeap, setClientBuffer_heap _ hcl, if_pos rfl]
  have hsettled : ∀ b' freed, SameCopies (s.settle c b' freed) (s₂.settle c b' freed) := by
    intro b' freed
    have hset := hsame.settle c b' freed
    rwa [setClientBuffer_settle] at hset
  rw [Ends, clientBuffer_eq hheap] at h
  cases harg : (cl.eventBuffer.events cl.eventBuffer.head).arg with
  | none =>
    have hs' : s' = s₂.settle c cl.eventBuffer.pop [] := by
      rw [settle_nil]
      rcases h with ⟨hs', -⟩ | ⟨x, hx, -⟩
      · rw [hs']
        exact (setClientBuffer_self hheap).symm
      · have hsome : (cl.eventBuffer.events cl.eventBuffer.head).arg = some x := hx
        rw [harg] at hsome
        cases hsome
    refine ⟨cl.eventBuffer.pop, pop_holds hwf hb hcount harg, fun _ => rfl, fun a => ?_, hs' ▸ hsettled _ _⟩
    rw [holds_none harg a]
    rfl
  | some x =>
    have hs' : s' = s₂.settle c (cl.eventBuffer.pop.clearArg cl.eventBuffer.head) [x.addr] := by
      rcases h with ⟨-, hne⟩ | ⟨y, hy, -, hs'⟩
      · exact absurd rfl (hne x harg)
      · have hsome : (cl.eventBuffer.events cl.eventBuffer.head).arg = some y := hy
        rw [harg] at hsome
        cases hsome
        exact hs'
    obtain ⟨htidy, hholds⟩ := release_holds hwf hb hcount
    refine ⟨cl.eventBuffer.pop.clearArg cl.eventBuffer.head, htidy, fun i => ?_, hholds, hs' ▸ hsettled _ _⟩
    change (Function.update cl.eventBuffer.events cl.eventBuffer.head _ i).callback = _
    rw [Function.update_apply]
    split
    · rename_i hi
      rw [hi]
      rfl
    · rfl

/-- When a completion has been put in the slot of the first event, nothing is released. -/
theorem Ends.overwritten (h : Ends s₂ c b s') (hwf : b.WF) (hhead : (s₂.clientBuffer c).head = b.head) : s' = s₂ := by
  rcases h with ⟨hs', -⟩ | ⟨x, -, hmoved, -⟩
  · exact hs'
  · have hlt := hwf.head
    have h10 : maxEvents = 10 := rfl
    rw [hhead] at hmoved
    simp only [EventBuffer.pop, h10] at hmoved hlt
    omega

private theorem Orderly.settle (h : Orderly s) (hcl : s.clientHeap c = some cl) (htidy : b.Tidy)
    (hcalls : c ∈ s.live → ∀ i, (b.events i).callback ≠ some .spawnResources) (freed : List Addr) :
    Orderly (s.settle c b freed) := by
  have hset := h.setClientBuffer hcl htidy hcalls
  exact ⟨fun d dl hd => hset.client d dl ⟨hd.live, hd.heap⟩, hset.server⟩

private theorem settle_holds (hlive : s.live.Nodup) (hc : LiveClient s c cl) (b : EventBuffer) (freed : List Addr)
    (a : Addr) : (s.settle c b freed).holds a + cl.eventBuffer.holds a = s.holds a + b.holds a :=
  setClientBuffer_holds hlive hc b a

private theorem settle_released (s : Server) (c : Addr) (b : EventBuffer) (freed : List Addr) (a : Addr) :
    (s.settle c b freed).released.count a = s.released.count a + freed.count a := List.count_append

/-- The event of a client has run, and its argument is released. -/
private theorem settle_handed (hlive : s.live.Nodup) (hs : Orderly s) (hc : LiveClient s c cl) {freed : List Addr}
    (htidy : b.Tidy) (hcalls : ∀ i, (b.events i).callback ≠ some .spawnResources)
    (hholds : ∀ a, b.holds a + freed.count a = cl.eventBuffer.holds a) : Handed s (s.settle c b freed) False := by
  refine ⟨hs.settle hc.heap htidy (fun _ => hcalls) freed, Nat.le_refl _, Nat.le_refl _, [], fun a => ?_, by simp⟩
  have hsum := settle_holds hlive hc b freed a
  have hheld := hholds a
  have hnone : s.copied (s.settle c b freed) = [] := copied_same rfl
  rw [hnone, settle_released, List.count_nil]
  omega

/-- The new address is not in use. -/
private theorem Registered.newAddr (h : Registered s) :
    s.clientHeap s.nextAddr = none ∧ s.playerHeap s.nextAddr = none := by
  have hclient := h.freshClient s.nextAddr (Nat.le_refl _)
  have hplayer := h.freshPlayer s.nextAddr (Nat.le_refl _)
  rw [Server.clientKey, Option.map_eq_none_iff] at hclient
  rw [Server.playerKey, Option.map_eq_none_iff] at hplayer
  exact ⟨hclient, hplayer⟩

theorem LiveClient.ne_new (h : LiveClient s c cl) (hreg : Registered s) : s.nextAddr ≠ c := by
  intro he
  have hnew := hreg.newAddr.1
  rw [he, h.heap] at hnew
  cases hnew

/-- A string is copied, the buffer of `c` is written, and arguments are released. -/
private theorem strdup_handed (hreg : Registered s) (hs : Orderly s) (hc : LiveClient s c cl) {freed lost : List Addr}
    {drops : Prop} (text : String) (htidy : b.Tidy) (hcalls : ∀ i, (b.events i).callback ≠ some .spawnResources)
    (hholds : ∀ a, b.holds a + freed.count a + lost.count a = cl.eventBuffer.holds a + [s.nextAddr].count a)
    (hlost : lost = [] ↔ ¬ drops) : Handed s ((s.strdup text).2.settle c b freed) drops := by
  have hs' : Orderly (s.strdup text).2 := ⟨fun d dl hd => hs.client d dl ⟨hd.live, hd.heap⟩, hs.server⟩
  have hc' : LiveClient (s.strdup text).2 c cl := ⟨hc.live, hc.heap⟩
  have hlive : (s.strdup text).2.live.Nodup := hreg.nodup
  have hone : s.copied ((s.strdup text).2.settle c b freed) = [s.nextAddr] := by
    refine copied_one rfl ?_ hreg.newAddr.2
    change (s.setClientBuffer c b).clientHeap s.nextAddr = none
    rw [setClientBuffer_heap b hc.heap, if_neg (hc.ne_new hreg), hreg.newAddr.1]
  refine ⟨hs'.settle hc'.heap htidy (fun _ => hcalls) freed, Nat.le_refl _, Nat.le_succ _, lost, fun a => ?_, hlost⟩
  have hsum : ((s.strdup text).2.settle c b freed).holds a + cl.eventBuffer.holds a = s.holds a + b.holds a :=
    settle_holds hlive hc' b freed a
  have hheld := hholds a
  have hreleased : ((s.strdup text).2.settle c b freed).released.count a = s.released.count a + freed.count a :=
    settle_released _ c b freed a
  rw [hone, hreleased]
  omega

/-- A string is copied for the buffer of `d`, the buffer of `c` is written, and arguments are released. -/
private theorem strdup_other_handed (hreg : Registered s) (hs : Orderly s) (hc : LiveClient s c cl) {dl : Client}
    (hd : LiveClient s d dl) (hne : d ≠ c) {freed : List Addr} (text : String) (htidy : b.Tidy)
    (hcalls : ∀ i, (b.events i).callback ≠ some .spawnResources)
    (hholds : ∀ a, b.holds a + freed.count a = cl.eventBuffer.holds a) (htidy' : b'.Tidy)
    (hcalls' : ∀ i, (b'.events i).callback ≠ some .spawnResources)
    (hholds' : ∀ a, b'.holds a = dl.eventBuffer.holds a + [s.nextAddr].count a) :
    Handed s (((s.strdup text).2.setClientBuffer d b').settle c b freed) False := by
  have hs' : Orderly (s.strdup text).2 := ⟨fun e el he => hs.client e el ⟨he.live, he.heap⟩, hs.server⟩
  have hd' : LiveClient (s.strdup text).2 d dl := ⟨hd.live, hd.heap⟩
  have hheap := setClientBuffer_heap b' hd'.heap
  have hc' : LiveClient ((s.strdup text).2.setClientBuffer d b') c cl :=
    ⟨hc.live, by rw [hheap, if_neg (Ne.symm hne)]; exact hc.heap⟩
  have hlive : (s.strdup text).2.live.Nodup := hreg.nodup
  have hlive' : ((s.strdup text).2.setClientBuffer d b').live.Nodup := hreg.nodup
  have hone : s.copied (((s.strdup text).2.setClientBuffer d b').settle c b freed) = [s.nextAddr] := by
    refine copied_one rfl ?_ hreg.newAddr.2
    change (((s.strdup text).2.setClientBuffer d b').setClientBuffer c b).clientHeap s.nextAddr = none
    rw [setClientBuffer_heap b hc'.heap, if_neg (hc.ne_new hreg), hheap, if_neg (hd.ne_new hreg)]
    exact hreg.newAddr.1
  have hset := hs'.setClientBuffer hd'.heap htidy' fun _ => hcalls'
  refine ⟨hset.settle hc'.heap htidy (fun _ => hcalls) freed, Nat.le_refl _, Nat.le_succ _, [], fun a => ?_, by simp⟩
  have hsum : ((s.strdup text).2.setClientBuffer d b').holds a + dl.eventBuffer.holds a = s.holds a + b'.holds a :=
    setClientBuffer_holds hlive hd' b' a
  have hsum' := settle_holds hlive' hc' b freed a
  have hheld := hholds a
  have hheld' := hholds' a
  have hreleased : (((s.strdup text).2.setClientBuffer d b').settle c b freed).released.count a =
      s.released.count a + freed.count a := settle_released _ c b freed a
  rw [hone, hreleased, List.count_nil]
  omega

private theorem front_calls {now : Nat} {delay : Int} {data : Option Addr} {arg : Option Arg} {origin : Conn}
    (h : timeApiScheduleClientEventFront now b delay (some .realIncantation) data arg origin = some b')
    (hcalls : ∀ i, (b.events i).callback ≠ some .spawnResources) (i : Nat) :
    (b'.events i).callback ≠ some .spawnResources := by
  rw [(front_events h).2.2, Function.update_apply]
  split
  · simp
  · exact hcalls i

/-- The rest of the turn in which an incantation has begun. -/
theorem LevelMade.handed {s₀ s₁ : Server} (hmade : LevelMade s₀ d s₁) (hwf : BuffersWF s) (hreg : Registered s)
    (hs : Orderly s) (hc : LiveClient s c cl) (hcount : 0 < cl.eventBuffer.count)
    (hbegins : Begins s (cl.eventBuffer.events cl.eventBuffer.head) pl d)
    (hpaid : SameCopies (s.setClientBuffer c cl.eventBuffer.pop) s₀) (hsent : SameCopies s₁ s₂)
    (hend : Ends s₂ c cl.eventBuffer s') :
    Handed s s' ((cl.eventBuffer.events cl.eventBuffer.head).Drops s c) := by
  have hb := hwf.client c cl hc.heap
  have hcl := hs.client c cl hc
  have hheap : ∀ {dl}, s₀.clientHeap d = some dl →
      d = c ∧ dl = { cl with eventBuffer := cl.eventBuffer.pop } ∨ d ≠ c ∧ s.clientHeap d = some dl := by
    intro dl hdl
    rw [hpaid.clientHeap, setClientBuffer_heap _ hc.heap] at hdl
    split at hdl
    · rename_i he
      exact Or.inl ⟨he, (Option.some.inj hdl).symm⟩
    · rename_i hne
      exact Or.inr ⟨hne, hdl⟩
  cases hmade with
  | @dropped dl text hdl hfull =>
    have hsame : SameCopies ((s.strdup text).2.setClientBuffer c cl.eventBuffer.pop) s₂ :=
      (hpaid.strdup text).trans hsent
    rcases hheap hdl with ⟨-, rfl⟩ | ⟨hne, hdl⟩
    · have hle := hb.count
      change maxEvents ≤ cl.eventBuffer.count - 1 at hfull
      omega
    · have hc' : (s.strdup text).2.clientHeap c = some cl := hc.heap
      obtain ⟨b', htidy, hcalls, hholds, hsettled⟩ := hend.settles hb hcl.tidy hcount hc' hsame
      have hheld : ∀ a, b'.holds a + (argAddr (cl.eventBuffer.events cl.eventBuffer.head).arg).count a +
          [s.nextAddr].count a = cl.eventBuffer.holds a + [s.nextAddr].count a :=
        fun a => congrArg (· + [s.nextAddr].count a) (hholds a)
      refine ((strdup_handed hreg hs hc text htidy (fun i => by rw [hcalls]; exact hcl.calls i) hheld ?_).and_then
        hsettled)
      rw [hbegins.drops, clientBuffer_eq hdl]
      simp [hne, hfull]
  | @queued dl text delay data origin b' hdl hfront =>
    have hmoved : SameCopies (((s.strdup text).2.setClientBuffer c cl.eventBuffer.pop).setClientBuffer d b') s₂ :=
      ((hpaid.strdup text).setClientBuffer d b').trans hsent
    have hnew : (⟨s₀.nextAddr, text⟩ : Arg) = ⟨s.nextAddr, text⟩ := congrArg (Arg.mk · text) hpaid.nextAddr
    rw [hnew] at hfront
    have hcalls := front_calls hfront
    rcases hheap hdl with ⟨he, rfl⟩ | ⟨hne, hdl⟩
    · -- the completion lies in the slot of the event
      obtain ⟨hhead, htidy, hholds⟩ := front_pop_holds hb hcl.tidy hcount hfront
      rw [he, ← settle_nil, setClientBuffer_settle] at hmoved
      have hheap₂ : s₂.clientHeap c = some { cl with eventBuffer := b' } := by
        have hc' : (s.strdup text).2.clientHeap c = some cl := hc.heap
        rw [hmoved.clientHeap]
        exact (setClientBuffer_heap b' hc' c).trans (if_pos rfl)
      obtain rfl := hend.overwritten hb (by rw [clientBuffer_eq hheap₂]; exact hhead)
      have hheld : ∀ a, b'.holds a + [].count a + (argAddr (cl.eventBuffer.events cl.eventBuffer.head).arg).count a =
          cl.eventBuffer.holds a + [s.nextAddr].count a := hholds
      refine (strdup_handed hreg hs hc text htidy (hcalls hcl.calls) hheld ?_).and_then hmoved
      rw [hbegins.drops, argAddr_eq_nil]
      simp [he]
    · have hd : LiveClient s d dl := ⟨List.reduceOption_mem_iff.2 (gameGetClientFromFd_some hbegins.finds).1, hdl⟩
      have hdl' := hs.client d dl hd
      obtain ⟨htidy', hholds'⟩ := scheduleFront_holds (hwf.client d dl hdl) hdl'.tidy hfront
      have hroom := (scheduleFront_spec (hwf.client d dl hdl) hfront).1
      have hstr : (s.strdup text).2.clientHeap d = some dl := hdl
      have hc' : ((s.strdup text).2.setClientBuffer d b').clientHeap c = some cl := by
        rw [setClientBuffer_heap b' hstr, if_neg (Ne.symm hne)]
        exact hc.heap
      rw [setClientBuffer_comm _ (Ne.symm hne)] at hmoved
      obtain ⟨b₂, htidy, hcalls₂, hholds, hsettled⟩ := hend.settles hb hcl.tidy hcount hc' hmoved
      refine ((strdup_other_handed hreg hs hc hd hne text htidy (fun i => by rw [hcalls₂]; exact hcl.calls i) hholds
        htidy' (hcalls hdl'.calls) hholds').and_then hsettled).of_iff ?_
      rw [hbegins.drops, clientBuffer_eq hdl]
      constructor
      · exact False.elim
      · rintro (⟨he, -⟩ | ⟨-, hfull⟩)
        · exact hne he
        · omega

/-- The turn of a client that has an event to execute. -/
private theorem processClient_handed {chance : Chance} (hwf : BuffersWF s) (hreg : Registered s) (hs : Orderly s)
    (hc : LiveClient s c cl) (hdue : clientHasActions cl.eventBuffer s.now = true)
    (h : processClient cfg chance c s = some s') :
    Handed s s' ((cl.eventBuffer.events cl.eventBuffer.head).Drops s c) := by
  have hb := hwf.client c cl hc.heap
  have hcl := hs.client c cl hc
  have hready : 0 < cl.eventBuffer.count ∧ (cl.eventBuffer.events cl.eventBuffer.head).execTime ≤ s.now := by
    simpa only [clientHasActions, Bool.and_eq_true, decide_eq_true_eq] using hdue
  rcases process_cases h with ⟨-, hnot⟩ | ⟨-, -, s₂, hcall, hend⟩
  · rw [clientBuffer_eq hc.heap] at hnot
    exact absurd hready hnot
  rw [clientBuffer_eq hc.heap] at hcall hend
  have hend : Ends s₂ c cl.eventBuffer s' := hend
  have hrun : runCallback cfg chance (cl.eventBuffer.events cl.eventBuffer.head)
      (s.setClientBuffer c cl.eventBuffer.pop) = some s₂ := runCallback_of_called hcall
  rcases runCallback_copies (hcl.calls _) hrun with ⟨hsame, hnot⟩ | ⟨pl, d, s₀, s₁, hbegins, hpaid, hmade, hsent⟩
  · obtain ⟨b', htidy, hcalls, hholds, hsettled⟩ := hend.settles hb hcl.tidy hready.1 hc.heap hsame
    have hhanded := settle_handed hreg.nodup hs hc htidy (fun i => by rw [hcalls]; exact hcl.calls i) hholds
    refine (hhanded.and_then hsettled).of_iff ⟨False.elim, ?_⟩
    rintro ⟨pl, d, hbegins, -⟩
    exact hnot pl d ((begins_setClientBuffer hc.heap _).2 hbegins)
  · exact hmade.handed hwf hreg hs hc hready.1 ((begins_setClientBuffer hc.heap _).1 hbegins) hpaid hsent hend

/-! ### Deaths -/

/-- The sweep over the ten slots of a buffer releases every copy that they hold. -/
theorem releaseArgs_released (b : EventBuffer) (s : Server) (a : Addr) :
    (releaseArgs b s).released.count a = s.released.count a + b.holds a := by
  unfold releaseArgs EventBuffer.holds
  generalize maxEvents = n
  induction n with
  | zero => rfl
  | succ n ih =>
    rw [List.range_succ, List.foldl_append, Finset.sum_range_succ, ← Nat.add_assoc, ← ih]
    simp only [List.foldl_cons, List.foldl_nil, Event.holds]
    split
    · rename_i x hx
      rw [hx]
      exact List.count_append
    · rename_i hnone
      rw [hnone]
      rfl

/-- The player of a live client leaves without an error, and all copies that its client holds are released. -/
private theorem gamePlayerDie_released (hreg : Registered s) (hc : LiveClient s c cl)
    (hpl : s.playerHeap cl.player = some pl) (hfood : pl.inv.nourriture ≤ 0) (hfd : cl.socketFd ≤ s.maxFd) (a : Addr) :
    (gamePlayerDie cfg s c cl pl).2.released.count a = s.released.count a + cl.eventBuffer.holds a := by
  obtain ⟨j, t, -, h₁, -, h₂⟩ := hreg.die_succeeds hc.live hc.heap hpl
  rcases gamePlayerDie_cases cfg s c cl hfood with ⟨hnone, -⟩ | ⟨s₁, hs₁, ⟨hnone, -⟩ | ⟨s₂, hs₂, hend⟩⟩
  · rw [h₁] at hnone
    cases hnone
  · obtain rfl := Option.some.inj (h₁.symm.trans hs₁)
    rw [h₂] at hnone
    cases hnone
  · obtain rfl := Option.some.inj (h₁.symm.trans hs₁)
    obtain rfl := Option.some.inj (h₂.symm.trans hs₂)
    rcases hend with ⟨hlt, -⟩ | ⟨-, hdied⟩
    · exact absurd hlt (Nat.not_lt.2 hfd)
    · rw [hdied]
      change (releaseArgs cl.eventBuffer _).released.count a = _
      rw [releaseArgs_released, buried_same]
      rfl

private theorem gamePlayerDie_handed (hreg : Registered s) (hs : Orderly s) (hc : LiveClient s c cl)
    (hpl : s.playerHeap cl.player = some pl) (hfood : pl.inv.nourriture ≤ 0) :
    Handed s (gamePlayerDie cfg s c cl pl).2 False := by
  have hleft := (hreg.left cfg hc.live hc.heap hpl hfood).2
  have hdead := gamePlayerDie_deceased cfg s c cl hfood
  have hold : ∀ d ∈ (gamePlayerDie cfg s c cl pl).2.live,
      d ∈ s.live ∧ (gamePlayerDie cfg s c cl pl).2.clientHeap d = s.clientHeap d := fun d hd =>
    ⟨hleft.mem_old hd, (hdead.clientHeap d).resolve_right fun h => hleft.ne_gone hreg hd h.1⟩
  have hholds : ∀ a, s.holds a = cl.eventBuffer.holds a + (gamePlayerDie cfg s c cl pl).2.holds a := by
    intro a
    rw [Server.holds, (hleft.live.map _).sum_eq, List.map_cons, List.sum_cons, clientBuffer_eq hc.heap]
    refine congrArg _ (congrArg List.sum (List.map_congr_left fun d hd => ?_))
    rw [Server.clientBuffer, Server.clientBuffer, (hold d hd).2]
  have hcopied : s.copied (gamePlayerDie cfg s c cl pl).2 = [] := copied_same hleft.addr
  refine ⟨⟨fun d dl hd => ?_, ?_⟩, by rw [hdead.rest], Nat.le_of_eq hleft.addr.symm, [], fun a => ?_, by simp⟩
  · obtain ⟨hlive, hheap⟩ := hold d hd.live
    have hdl := hs.client d dl ⟨hlive, hheap ▸ hd.heap⟩
    rw [hdead.rest]
    exact hdl
  · rw [hdead.rest]
    exact hs.server
  · rw [hcopied, gamePlayerDie_released hreg hc hpl hfood (hs.client c cl hc).fd, hholds a]
    omega

/-! ### Turns, logins and commands -/

private theorem modPlayer_sameCopies (s : Server) (p : Addr) (f : Player → Player) (e : Entry) :
    SameCopies s ((s.modPlayer p f).record e) := by
  refine ⟨rfl, rfl, fun q => ?_, rfl, Nat.le_refl _, rfl, rfl⟩
  change ((s.modPlayer p f).playerHeap q).isNone = _
  rw [modPlayer_heap]
  split
  · exact Option.isNone_map
  · rfl

theorem gameKillPlayer_sameCopies (s : Server) (fd : Fd) : SameCopies s (gameKillPlayer s fd) := by
  unfold gameKillPlayer
  split
  · exact .refl s
  · split
    · exact .refl s
    · split
      · exact .refl s
      · exact modPlayer_sameCopies s _ _ _

/-- The copies that the turn of a slot loses. -/
def SlotDrops (s : Server) (chance : Chance) (i : Nat) : Prop :=
  ∃ c ev, s.clients[i]? = some (some c) ∧ executed s (.playSlot chance i) = some ev ∧ ev.Drops s c

theorem gamePlaySlot_handed {chance : Chance} (hwf : BuffersWF s) (hreg : Registered s) (hs : Orderly s)
    (h : gamePlaySlot cfg chance s i = some s') : Handed s s' (SlotDrops s chance i) := by
  have hidle : ∀ {c cl pl}, AtSlot s i c cl pl →
      ¬ (playerIsAlive pl s.now = true ∧ clientHasActions cl.eventBuffer s.now = true) →
        (False ↔ SlotDrops s chance i) := by
    intro c cl pl hat hnot
    refine ⟨False.elim, ?_⟩
    rintro ⟨d, ev, -, hev, -⟩
    rw [hat.executed_eq, if_neg hnot] at hev
    cases hev
  cases gamePlaySlot_cases h with
  | empty hempty =>
    refine ((SameCopies.refl s).handed hs).of_iff ⟨False.elim, ?_⟩
    rintro ⟨c, ev, hi, -⟩
    exact hempty c hi
  | eats hat hdead hfood =>
    refine ((modPlayer_sameCopies s _ _ _).handed hs).of_iff (hidle hat ?_)
    rintro ⟨halive, -⟩
    rw [hdead] at halive
    cases halive
  | dies hat hdead hfood =>
    have hc : LiveClient s _ _ := ⟨mem_of_getElem? hat.slot, hat.client⟩
    refine (gamePlayerDie_handed hreg hs hc hat.player hfood).of_iff (hidle hat ?_)
    rintro ⟨halive, -⟩
    rw [hdead] at halive
    cases halive
  | waits hat halive hnone =>
    refine ((SameCopies.refl s).handed hs).of_iff (hidle hat ?_)
    rintro ⟨-, hdue⟩
    rw [hnone] at hdue
    cases hdue
  | @plays c cl pl _ hat halive hdue hrun =>
    have hc : LiveClient s c cl := ⟨mem_of_getElem? hat.slot, hat.client⟩
    have hev : executed s (.playSlot chance i) = some (cl.eventBuffer.events cl.eventBuffer.head) := by
      rw [hat.executed_eq, if_pos ⟨halive, hdue⟩]
    refine (processClient_handed hwf hreg hs hc hdue hrun).of_iff ⟨fun hdrops => ⟨c, _, hat.slot, hev, hdrops⟩, ?_⟩
    rintro ⟨d, ev, hi, hev', hdrops⟩
    obtain rfl := Option.some.inj (Option.some.inj (hat.slot.symm.trans hi))
    obtain rfl := Option.some.inj (hev.symm.trans hev')
    exact hdrops

theorem gameRegisterPlayer_handed {conn : Conn} {fd : Fd} {teamName : String} {draw : StartDraw} {s₁ : Server}
    (hreg : Registered s) (hs : Orderly s) (hfd : fd ≤ s.maxFd)
    (h : gameRegisterPlayer cfg s conn fd teamName draw = (.success, s₁)) : Handed s s₁ False := by
  obtain ⟨teamId, t, -, ht, hroom, hentered⟩ := gameRegisterPlayer_success (congrArg Prod.fst h)
  rw [h] at hentered
  obtain rfl : s₁ = enterGame cfg s conn fd teamId draw := hentered
  have he := hreg.entered cfg conn fd draw ht hroom
  have hrest : (enterGame cfg s conn fd teamId draw).eventBuffer = s.eventBuffer ∧
      (enterGame cfg s conn fd teamId draw).maxFd = s.maxFd ∧
      (enterGame cfg s conn fd teamId draw).released = s.released := by
    rw [enterGame_eq, onTile, (addPlayer_same _ _ _).rest]
    exact ⟨rfl, rfl, rfl⟩
  have hheap : (enterGame cfg s conn fd teamId draw).clientHeap =
      Function.update s.clientHeap s.nextAddr (some { socketFd := fd, player := s.nextAddr + 1, conn := conn }) := by
    rw [enterGame_eq]
    exact onTile_clientHeap conn fd teamId draw
  have hcopied : s.copied (enterGame cfg s conn fd teamId draw) = [] := by
    have hplayer := he.newPlayer
    rw [Server.playerKey, Option.map_eq_some_iff] at hplayer
    obtain ⟨pl, hpl, -⟩ := hplayer
    rw [Server.copied, he.addr, Nat.add_sub_cancel_left]
    simp [List.range'_succ, hheap, hpl]
  refine ⟨⟨fun c cl hc => ?_, by rw [hrest.1]; exact hs.server⟩, Nat.le_of_eq hrest.2.1.symm,
    by rw [he.addr]; exact Nat.le_add_right _ 2, [], fun a => ?_, by simp⟩
  · rw [hrest.2.1]
    rcases enterGame_liveClient hc with ⟨-, hc⟩ | ⟨-, rfl⟩
    · exact hs.client c cl hc
    · exact ⟨tidy_zero, by simp, hfd⟩
  · have hholds : (enterGame cfg s conn fd teamId draw).holds a = s.holds a := by
      rw [Server.holds, (he.live.map _).sum_eq, List.map_cons, List.sum_cons, Server.clientBuffer, hheap,
        Function.update_self]
      refine (congrArg₂ (· + ·) (holds_zero a) (congrArg List.sum (List.map_congr_left fun c hc => ?_))).trans
        (Nat.zero_add _)
      rw [Server.clientBuffer, Server.clientBuffer, hheap, Function.update_of_ne (Entered.ne_new hreg hc)]
    rw [hcopied, hrest.2.2, hholds]

/-- A known command with an argument comes for a client whose buffer is full. -/
def Refused (s : Server) (fd : Fd) (cmd : String) (arg : Option String) : Prop :=
  arg ≠ none ∧ commandTypeOf cmd ≠ none ∧
    ∃ c, s.gameGetClientFromFd fd = some c ∧ maxEvents ≤ (s.clientBuffer c).count

private theorem schedule_calls {now : Nat} {delay : Int} {type : CommandType} {data : Option Addr} {arg : Option Arg}
    {origin : Conn} (h : timeApiScheduleClientEvent now b delay (some (.command type)) data arg origin = some b')
    (hcalls : ∀ i, (b.events i).callback ≠ some .spawnResources) (i : Nat) :
    (b'.events i).callback ≠ some .spawnResources := by
  unfold timeApiScheduleClientEvent at h
  split at h
  · cases h
  · cases h
    dsimp only
    rw [Function.update_apply]
    split
    · simp
    · exact hcalls i

theorem gameExecuteCommand_handed {conn : Conn} {fd : Fd} {cmd : String} {arg : Option String} (hwf : BuffersWF s)
    (hreg : Registered s) (hs : Orderly s) :
    Handed s (gameExecuteCommand cfg s conn fd cmd arg).2 (Refused s fd cmd arg) := by
  unfold gameExecuteCommand
  split
  · rename_i hnone
    refine ((SameCopies.refl s).handed hs).of_iff ⟨False.elim, ?_⟩
    rintro ⟨-, -, c, hc, -⟩
    rw [hnone] at hc
    cases hc
  rename_i c hfinds
  split
  · rename_i hunknown
    refine ((SameCopies.refl s).handed hs).of_iff ⟨False.elim, ?_⟩
    rintro ⟨-, hknown, -⟩
    exact hknown hunknown
  rename_i type htype
  obtain ⟨hmem, cl, hcl, -⟩ := gameGetClientFromFd_some hfinds
  have hc : LiveClient s c cl := ⟨List.reduceOption_mem_iff.2 hmem, hcl⟩
  have hb := hwf.client c cl hcl
  have hclient := hs.client c cl hc
  have hrefused : Refused s fd cmd arg ↔ arg ≠ none ∧ maxEvents ≤ cl.eventBuffer.count := by
    constructor
    · rintro ⟨harg, -, d, hd, hfull⟩
      obtain rfl := Option.some.inj (hfinds.symm.trans hd)
      rw [clientBuffer_eq hcl] at hfull
      exact ⟨harg, hfull⟩
    · rintro ⟨harg, hfull⟩
      exact ⟨harg, by rw [htype]; simp, c, hfinds, by rw [clientBuffer_eq hcl]; exact hfull⟩
  cases arg with
  | none =>
    have hnot : False ↔ Refused s fd cmd none := ⟨False.elim, fun h => h.1 rfl⟩
    rcases modClient_getD hcl (fun cl => timeApiScheduleClientEvent s.now cl.eventBuffer (prototypeDelay cfg type)
      (some (.command type)) (some cl.player) none conn) with ⟨-, hsame⟩ | ⟨b, hsched, hset⟩
    · refine Handed.of_iff ?_ hnot
      dsimp only
      rw [hsame]
      exact (SameCopies.refl s).handed hs
    · obtain ⟨htidy, hholds⟩ := schedule_holds hb hclient.tidy hsched
      refine Handed.of_iff ?_ hnot
      dsimp only
      rw [hset, ← settle_nil]
      exact settle_handed hreg.nodup hs hc htidy (schedule_calls hsched hclient.calls) hholds
  | some text =>
    have hcl' : (s.strdup text).2.clientHeap c = some cl := hcl
    rcases modClient_getD hcl' (fun cl => timeApiScheduleClientEvent s.now cl.eventBuffer (prototypeDelay cfg type)
      (some (.command type)) (some cl.player) (some ⟨s.nextAddr, text⟩) conn) with ⟨hfull, hsame⟩ | ⟨b, hsched, hset⟩
    · have hfull := schedule_eq_none_iff.1 hfull
      have hheld : ∀ a, cl.eventBuffer.holds a + [].count a + [s.nextAddr].count a =
          cl.eventBuffer.holds a + [s.nextAddr].count a := fun a => rfl
      have hhanded : Handed s ((s.strdup text).2.settle c cl.eventBuffer []) (Refused s fd cmd (some text)) := by
        refine strdup_handed hreg hs hc text hclient.tidy hclient.calls hheld ?_
        rw [hrefused]
        simp [hfull]
      rw [settle_nil, setClientBuffer_self hcl', ← hsame] at hhanded
      exact hhanded
    · obtain ⟨htidy, hholds⟩ := schedule_holds hb hclient.tidy hsched
      have hroom := (schedule_spec hb hsched).1
      have hheld : ∀ a, b.holds a + [].count a + [].count a = cl.eventBuffer.holds a + [s.nextAddr].count a := hholds
      have hhanded : Handed s ((s.strdup text).2.settle c b []) (Refused s fd cmd (some text)) := by
        refine strdup_handed hreg hs hc text htidy (schedule_calls hsched hclient.calls) hheld ?_
        rw [hrefused]
        simp only [true_iff, not_and, Nat.not_le]
        exact fun _ => hroom
      rw [settle_nil, ← hset] at hhanded
      exact hhanded

/-! ### The turn of the server -/

theorem schedule_noArg {now : Nat} {delay : Int} {cb : Option Callback} {data : Option Addr} {arg : Option Arg}
    {origin : Conn} (h : timeApiScheduleClientEvent now b delay cb data arg origin = some b')
    (hargs : ∀ i, (b.events i).arg = none) (harg : arg = none) (i : Nat) : (b'.events i).arg = none := by
  unfold timeApiScheduleClientEvent at h
  split at h
  · cases h
  · cases h
    dsimp only
    rw [Function.update_apply]
    split
    · exact harg
    · exact hargs i

/-- The buffer of the server holds no copies, so its turn releases none. -/
theorem processServer_handed {chance : Chance} (hwf : BuffersWF s) (hs : Orderly s)
    (h : processServer cfg chance s = some s') : Handed s s' False := by
  have hserver : ∀ s₁ : Server, s₁.clients = s.clients → s₁.clientHeap = s.clientHeap → s₁.maxFd = s.maxFd →
      s₁.released = s.released → s₁.nextAddr = s.nextAddr → (∀ i, (s₁.eventBuffer.events i).arg = none) →
        Handed s s₁ False := by
    intro s₁ hclients hheap hmax hreleased hnext hargs
    have hlive : s₁.live = s.live := by rw [Server.live, Server.live, hclients]
    refine ⟨⟨fun c cl hc => ?_, hargs⟩, Nat.le_of_eq hmax.symm, Nat.le_of_eq hnext.symm, [], fun a => ?_, by simp⟩
    · rw [hmax]
      exact hs.client c cl ⟨hlive ▸ hc.live, hheap ▸ hc.heap⟩
    · rw [copied_same hnext, hreleased, holds_congr hlive hheap]
  rcases process_cases h with ⟨rfl, -⟩ | ⟨-, -, s₂, hcall, hend⟩
  · exact hserver _ rfl rfl rfl rfl rfl hs.server
  have hcalled : Handed s s₂ False := by
    rcases hwf.server_called hcall with rfl | rfl
    · rw [gameSpawnResources_rest]
      refine hserver _ rfl rfl rfl rfl rfl fun i => ?_
      dsimp only
      cases hsched : timeApiScheduleClientEvent s.now s.eventBuffer.pop cfg.spawnPeriod (some .spawnResources)
          (s.eventBuffer.events s.eventBuffer.head).data (s.eventBuffer.events s.eventBuffer.head).arg
          (s.eventBuffer.events s.eventBuffer.head).origin with
      | none => exact hs.server i
      | some b => exact schedule_noArg hsched hs.server (hs.server _) i
    · exact hserver _ rfl rfl rfl rfl rfl hs.server
  rcases hend with ⟨rfl, -⟩ | ⟨x, hx, -⟩
  · exact hcalled
  · rw [hcalled.orderly.server] at hx
    cases hx

end Zappy

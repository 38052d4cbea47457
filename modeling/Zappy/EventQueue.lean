import Zappy.Messages
import Zappy.TimeApi
import Zappy.Lib.Run

/-!
# The event buffer as a queue with two ends

The slots of an event buffer from `head` on spell a queue of at most `MAX_EVENTS` events.  Scheduling adds at the
end or at the front and fails on a full queue; `time_api_process_client_events` takes a due event off the front.
A callback may come back to the buffer while the event is being processed: `m_command_incantation` puts its
completion at the front, in the very slot the event was read from, and `m_game_spawn_resources` books its next turn
in a buffer that holds nothing else.
-/

namespace Zappy

open Run

/-- The arguments of a call that schedules an event. -/
structure Booking where
  delay : Int
  callback : Option Callback
  data : Option Addr
  arg : Option Arg
  origin : Conn
  deriving DecidableEq, Repr

/-- The event of a booking, for an execution time. -/
def Booking.event (b : Booking) (execTime : Nat) : Event := ⟨execTime, b.callback, b.data, b.arg, b.origin⟩

/-- What a callback does to the buffer that is being processed. -/
inductive Reentry where
  | nothing
  | front (booking : Booking)
  | append (booking : Booking)
  deriving DecidableEq, Repr

/-! ### The queue -/

/-- The queued events, and those whose callback has run. -/
structure EventDeque where
  events : List Event := []
  ran : List Event := []

inductive QueueAction where
  | advance (t : Nat)
  | schedule (booking : Booking)
  | scheduleFront (booking : Booking)
  | process (reentry : Reentry)

/-- What a callback does to the queue; it appends to an empty queue only. -/
inductive Reenters (now : Nat) : Reentry → List Event → List Event → Prop
  | nothing (l : List Event) : Reenters now .nothing l l
  | front (booking : Booking) (l : List Event) :
      Reenters now (.front booking) l (booking.event (u64 (now + booking.delay)) :: l)
  | append (booking : Booking) : Reenters now (.append booking) [] [booking.event (u64 (now + booking.delay))]

/-- The operations of a queue of capacity `MAX_EVENTS`, with their results.  What time a scheduled event gets
behind others is not its concern. -/
inductive DequeStep (now : Nat) : EventDeque → QueueAction → Ret → EventDeque → Prop
  | advance (q : EventDeque) (t : Nat) : DequeStep now q (.advance t) .success q
  | schedule (q : EventDeque) (booking : Booking) (t : Nat) (hroom : q.events.length < maxEvents) :
      DequeStep now q (.schedule booking) .success { q with events := q.events ++ [booking.event t] }
  | scheduleFull (q : EventDeque) (booking : Booking) (hfull : q.events.length = maxEvents) :
      DequeStep now q (.schedule booking) .error q
  | scheduleFront (q : EventDeque) (booking : Booking) (hroom : q.events.length < maxEvents) :
      DequeStep now q (.scheduleFront booking) .success
        { q with events := booking.event (u64 (now + booking.delay)) :: q.events }
  | scheduleFrontFull (q : EventDeque) (booking : Booking) (hfull : q.events.length = maxEvents) :
      DequeStep now q (.scheduleFront booking) .error q
  | idle (q : EventDeque) (reentry : Reentry) (hidle : ∀ ev ∈ q.events.head?, now < ev.execTime) :
      DequeStep now q (.process reentry) .success q
  | due (q : EventDeque) (reentry : Reentry) {ev : Event} {rest l : List Event} (hq : q.events = ev :: rest)
      (hdue : ev.execTime ≤ now) (hcallback : ev.callback.isSome) (hreenters : Reenters now reentry rest l) :
      DequeStep now q (.process reentry) .success ⟨l, q.ran ++ [ev]⟩
  | dueSilent (q : EventDeque) (reentry : Reentry) {ev : Event} {rest : List Event} (hq : q.events = ev :: rest)
      (hdue : ev.execTime ≤ now) (hcallback : ev.callback = none) :
      DequeStep now q (.process reentry) .success { q with events := rest }

/-! ### The buffer -/

/-- A buffer in use, with the clock, the result of the last call and ghosts: the events whose callback has run and
the arguments released. -/
structure QueueState where
  buffer : EventBuffer := {}
  now : Nat := 0
  result : Ret := .success
  ran : List Event := []
  freed : List Addr := []

namespace QueueState

variable (s : QueueState)

def schedule (b : Booking) : QueueState :=
  match timeApiScheduleClientEvent s.now s.buffer b.delay b.callback b.data b.arg b.origin with
  | none => { s with result := .error }
  | some buffer => { s with buffer := buffer, result := .success }

def scheduleFront (b : Booking) : QueueState :=
  match timeApiScheduleClientEventFront s.now s.buffer b.delay b.callback b.data b.arg b.origin with
  | none => { s with result := .error }
  | some buffer => { s with buffer := buffer, result := .success }

/-- The callback of `ev` runs. -/
def call (reentry : Reentry) (ev : Event) : QueueState :=
  let s₁ := { s with ran := s.ran ++ [ev] }
  match reentry with
  | .nothing => s₁
  | .front booking => s₁.scheduleFront booking
  | .append booking => s₁.schedule booking

def deque : EventDeque := ⟨s.buffer.queued, s.ran⟩

end QueueState

/-- One call of the event API.  `time_api_process_client_events` succeeds whatever its callback returns. -/
def queueStep (s : QueueState) : QueueAction → Option QueueState
  | .advance t => some { s with now := t, result := .success }
  | .schedule booking => some (s.schedule booking)
  | .scheduleFront booking => some (s.scheduleFront booking)
  | .process reentry => (timeApiProcessClientEvents QueueState.buffer (fun b s => { s with buffer := b })
      (fun ev s => some (s.call reentry ev)) (fun a s => { s with freed := s.freed ++ [a] }) s.now s).map
        fun s' => { s' with result := .success }

/-- A callback that appends finds the buffer empty. -/
def ReentryOK (s : QueueState) : QueueAction → Prop
  | .process (.append _) => s.buffer.count ≤ 1
  | _ => True

def reentryTest (s : QueueState) : QueueAction → Bool
  | .process (.append _) => s.buffer.count ≤ 1
  | _ => true

/-- A step of the buffer is a step of the queue it spells; a call that fails, and the processing of a queue whose
first event is not due, change nothing. -/
structure QueueRefined (s : QueueState) (a : QueueAction) (s' : QueueState) : Prop where
  wf : s'.buffer.WF
  step : DequeStep s.now s.deque a s'.result s'.deque
  fails : s'.result = .error → s' = { s with result := .error }
  idle : ∀ reentry, a = .process reentry → (∀ ev ∈ s.buffer.queued.head?, s.now < ev.execTime) →
    s' = { s with result := .success }

variable {s s' : QueueState} {a : QueueAction}

private theorem schedule_refined (hwf : s.buffer.WF) (b : Booking) :
    QueueRefined s (.schedule b) (s.schedule b) := by
  unfold QueueState.schedule
  cases h : timeApiScheduleClientEvent s.now s.buffer b.delay b.callback b.data b.arg b.origin with
  | none =>
    have hfull : s.buffer.queued.length = maxEvents := by
      have hle := schedule_eq_none_iff.1 h
      have := hwf.count
      rw [EventBuffer.length_queued]
      omega
    exact ⟨hwf, .scheduleFull s.deque b hfull, fun _ => rfl, fun _ ha => (by cases ha)⟩
  | some buffer =>
    obtain ⟨hroom, hwf', -, hq⟩ := schedule_spec hwf h
    refine ⟨hwf', ?_, fun he => (by cases he), fun _ ha => (by cases ha)⟩
    have hlength : s.deque.events.length < maxEvents := by simpa [QueueState.deque] using hroom
    change DequeStep s.now s.deque _ _ ⟨buffer.queued, s.ran⟩
    rw [hq]
    exact .schedule s.deque b _ hlength

private theorem scheduleFront_refined (hwf : s.buffer.WF) (b : Booking) :
    QueueRefined s (.scheduleFront b) (s.scheduleFront b) := by
  unfold QueueState.scheduleFront
  cases h : timeApiScheduleClientEventFront s.now s.buffer b.delay b.callback b.data b.arg b.origin with
  | none =>
    have hfull : s.buffer.queued.length = maxEvents := by
      have := hwf.count
      rw [EventBuffer.length_queued]
      by_contra hne
      have hsome : (timeApiScheduleClientEventFront s.now s.buffer b.delay b.callback b.data b.arg
        b.origin).isSome := scheduleFront_isSome (by omega)
      rw [h] at hsome
      cases hsome
    exact ⟨hwf, .scheduleFrontFull s.deque b hfull, fun _ => rfl, fun _ ha => (by cases ha)⟩
  | some buffer =>
    obtain ⟨hroom, hwf', -, hq⟩ := scheduleFront_spec hwf h
    refine ⟨hwf', ?_, fun he => (by cases he), fun _ ha => (by cases ha)⟩
    have hlength : s.deque.events.length < maxEvents := by simpa [QueueState.deque] using hroom
    change DequeStep s.now s.deque _ _ ⟨buffer.queued, s.ran⟩
    rw [hq]
    exact .scheduleFront s.deque b hlength

/-! ### Processing -/

/-- Clearing the slot before the front does not show in the queue. -/
private theorem queued_clearArg {b : EventBuffer} {i : Nat} (hi : i < maxEvents) (hhead : b.head = (i + 1) % maxEvents)
    (hcount : b.count < maxEvents) : (b.clearArg i).queued = b.queued := by
  apply RingBuffer.window_update_of_ne
  intro k hk he
  have hk' : k < b.count := hk
  have hi' := hi
  have h10 : maxEvents = 10 := rfl
  simp only [EventBuffer.clearArg, hhead, h10] at *
  omega

private theorem wf_clearArg {b : EventBuffer} (hwf : b.WF) (i : Nat) : (b.clearArg i).WF :=
  ⟨hwf.head, hwf.count, hwf.tail⟩

/-- The buffer and the ghosts after the callback of the first event `ev` has come back to the buffer: while `head` is
where it was, the slot of the event is free. -/
structure Returned (s : QueueState) (reentry : Reentry) (ev : Event) (s₂ : QueueState) : Prop where
  wf : s₂.buffer.WF
  reenters : Reenters s.now reentry s.buffer.pop.queued s₂.buffer.queued
  ran : s₂.ran = s.ran ++ [ev]
  room : s₂.buffer.head = s.buffer.pop.head → s₂.buffer.count < maxEvents

private theorem pop_count (b : EventBuffer) : b.pop.count = b.count - 1 := rfl

private theorem nothing_returned (hwf : s.buffer.WF) (hcount : 0 < s.buffer.count) (ev : Event) :
    Returned s .nothing ev (QueueState.call { s with buffer := s.buffer.pop } .nothing ev) := by
  refine ⟨EventBuffer.pop_wf hwf hcount, .nothing _, rfl, fun _ => ?_⟩
  change s.buffer.pop.count < maxEvents
  have := hwf.count
  rw [pop_count]
  omega

/-- The buffer has a free slot when the callback puts an event at the front, and `head` moves back to it. -/
private theorem front_returned (hwf : s.buffer.WF) (hcount : 0 < s.buffer.count) (booking : Booking) (ev : Event) :
    Returned s (.front booking) ev (QueueState.call { s with buffer := s.buffer.pop } (.front booking) ev) := by
  have hpop := EventBuffer.pop_wf hwf hcount
  have hle := hwf.count
  have hsome : (timeApiScheduleClientEventFront s.now s.buffer.pop booking.delay booking.callback booking.data
    booking.arg booking.origin).isSome := scheduleFront_isSome (by rw [pop_count]; omega)
  obtain ⟨b, hb⟩ := Option.isSome_iff_exists.1 hsome
  obtain ⟨-, hwf', -, hq⟩ := scheduleFront_spec hpop hb
  have hcall : QueueState.call { s with buffer := s.buffer.pop } (.front booking) ev =
      { s with buffer := b, result := .success, ran := s.ran ++ [ev] } := by
    simp only [QueueState.call, QueueState.scheduleFront, hb]
  rw [hcall]
  refine ⟨hwf', ?_, rfl, fun hhead => ?_⟩
  · rw [hq]
    exact .front booking _
  · exfalso
    unfold timeApiScheduleClientEventFront at hb
    split at hb
    · cases hb
    · cases hb
      have hlt := hpop.head
      have h10 : maxEvents = 10 := rfl
      simp only [h10] at hhead hlt
      omega

/-- A callback that appends finds the buffer empty, so its event is the only one. -/
private theorem append_returned (hwf : s.buffer.WF) (hcount : 0 < s.buffer.count) (hone : s.buffer.count ≤ 1)
    (booking : Booking) (ev : Event) :
    Returned s (.append booking) ev (QueueState.call { s with buffer := s.buffer.pop } (.append booking) ev) := by
  have hpop := EventBuffer.pop_wf hwf hcount
  have hempty : s.buffer.pop.count = 0 := by rw [pop_count]; omega
  have hnil : s.buffer.pop.queued = [] := List.eq_nil_of_length_eq_zero (by simpa using hempty)
  cases hb : timeApiScheduleClientEvent s.now s.buffer.pop booking.delay booking.callback booking.data booking.arg
    booking.origin with
  | none =>
    have hfull := schedule_eq_none_iff.1 hb
    rw [hempty] at hfull
    exact absurd hfull (by decide)
  | some b =>
    obtain ⟨-, hwf', hcount', hq⟩ := schedule_spec hpop hb
    have hcall : QueueState.call { s with buffer := s.buffer.pop } (.append booking) ev =
        { s with buffer := b, result := .success, ran := s.ran ++ [ev] } := by
      simp only [QueueState.call, QueueState.schedule, hb]
    have htime : scheduledEvent s.now s.buffer.pop booking.delay booking.callback booking.data booking.arg
        booking.origin = booking.event (u64 (s.now + booking.delay)) := by
      rw [scheduledEvent, if_neg (by omega)]; rfl
    rw [hcall]
    refine ⟨hwf', ?_, rfl, fun _ => ?_⟩
    · rw [hq, hnil, List.nil_append, htime]
      exact .append booking
    · have h10 : maxEvents = 10 := rfl
      dsimp only
      omega

private theorem call_returned (hwf : s.buffer.WF) (hcount : 0 < s.buffer.count) {reentry : Reentry}
    (hok : ReentryOK s (.process reentry)) (ev : Event) :
    Returned s reentry ev (QueueState.call { s with buffer := s.buffer.pop } reentry ev) := by
  cases reentry with
  | nothing => exact nothing_returned hwf hcount ev
  | front booking => exact front_returned hwf hcount booking ev
  | append booking => exact append_returned hwf hcount hok booking ev

/-- The queue when the first event has been taken out and its callback, if it has one, has run. -/
private theorem dueEvent_step (hwf : s.buffer.WF) (hcount : 0 < s.buffer.count) {reentry : Reentry}
    (hok : ReentryOK s (.process reentry)) (hdue : (s.buffer.events s.buffer.head).execTime ≤ s.now) {s₂ : QueueState}
    (hcall : (if (s.buffer.events s.buffer.head).callback.isSome
      then some (QueueState.call { s with buffer := s.buffer.pop } reentry (s.buffer.events s.buffer.head))
      else some { s with buffer := s.buffer.pop }) = some s₂) :
    s₂.buffer.WF ∧ DequeStep s.now s.deque (.process reentry) .success s₂.deque ∧
      (s₂.buffer.head = s.buffer.pop.head → s₂.buffer.count < maxEvents) := by
  have hq := EventBuffer.queued_pop hwf hcount
  cases hcb : (s.buffer.events s.buffer.head).callback with
  | some cb =>
    rw [hcb, Option.isSome_some, if_pos rfl, Option.some.injEq] at hcall
    have hret := call_returned hwf hcount hok (s.buffer.events s.buffer.head)
    rw [hcall] at hret
    refine ⟨hret.wf, ?_, hret.room⟩
    change DequeStep s.now s.deque _ _ ⟨s₂.buffer.queued, s₂.ran⟩
    rw [hret.ran]
    exact .due s.deque reentry hq hdue (by rw [hcb]; rfl) hret.reenters
  | none =>
    rw [hcb, Option.isSome_none, if_neg (by simp), Option.some.injEq] at hcall
    subst hcall
    refine ⟨EventBuffer.pop_wf hwf hcount, .dueSilent s.deque reentry hq hdue hcb, fun _ => ?_⟩
    have := hwf.count
    dsimp only
    rw [pop_count]
    omega

private theorem process_refined (hwf : s.buffer.WF) {reentry : Reentry} (hok : ReentryOK s (.process reentry))
    (h : queueStep s (.process reentry) = some s') : QueueRefined s (.process reentry) s' := by
  simp only [queueStep, Option.map_eq_some_iff] at h
  obtain ⟨s₁, h, rfl⟩ := h
  rcases process_cases h with ⟨rfl, hnot⟩ | ⟨hcount, hdue, s₂, hcall, hend⟩
  · refine ⟨hwf, .idle s₁.deque reentry fun ev hev => ?_, fun he => (by cases he), fun _ _ _ => rfl⟩
    by_cases hcount : 0 < s₁.buffer.count
    · have hq : s₁.deque.events = _ := EventBuffer.queued_pop hwf hcount
      rw [hq] at hev
      cases hev
      exact Nat.lt_of_not_le fun hdue => hnot ⟨hcount, hdue⟩
    · have hnil : s₁.deque.events = [] := List.eq_nil_of_length_eq_zero (by simpa [QueueState.deque] using hcount)
      rw [hnil] at hev
      cases hev
  · have hlate : ¬ ∀ ev ∈ s.buffer.queued.head?, s.now < ev.execTime := by
      intro hidle
      rw [EventBuffer.queued_pop hwf hcount] at hidle
      exact absurd (hidle _ rfl) (Nat.not_lt.2 hdue)
    obtain ⟨hwf₂, hstep, hroom⟩ := dueEvent_step hwf hcount hok hdue hcall
    rcases hend with ⟨rfl, -⟩ | ⟨arg, -, hhead, rfl⟩
    · exact ⟨hwf₂, hstep, fun he => (by cases he), fun _ _ hidle => absurd hidle hlate⟩
    · -- `head` is where it was, so the slot of the event may be cleared
      have hclear : (s₂.buffer.clearArg s.buffer.head).queued = s₂.buffer.queued :=
        queued_clearArg hwf.head hhead.symm (hroom hhead.symm)
      refine ⟨wf_clearArg hwf₂ _, ?_, fun he => (by cases he), fun _ _ hidle => absurd hidle hlate⟩
      change DequeStep s.now s.deque _ _ ⟨(s₂.buffer.clearArg s.buffer.head).queued, s₂.ran⟩
      rw [hclear]
      exact hstep

private theorem queueStep_refined (hwf : s.buffer.WF) (hok : ReentryOK s a) (h : queueStep s a = some s') :
    QueueRefined s a s' := by
  cases a with
  | advance t =>
    cases h
    exact ⟨hwf, .advance s.deque t, fun he => (by cases he), fun _ ha => (by cases ha)⟩
  | schedule booking =>
    cases h
    exact schedule_refined hwf booking
  | scheduleFront booking =>
    cases h
    exact scheduleFront_refined hwf booking
  | process reentry => exact process_refined hwf hok h

/-- In every run from a zeroed buffer, with callbacks that do nothing to the buffer, add one event at its front or
append themselves to a buffer that is otherwise empty, every step is a step of the queue that the buffer spells. -/
theorem event_buffer_refines_deque (as : List QueueAction) (hG : Guarded queueStep ReentryOK {} as) :
    AllSteps queueStep QueueRefined {} as :=
  hG.allSteps (I := fun s => s.buffer.WF) (fun _ _ _ hstep hok hwf => (queueStep_refined hwf hok hstep).wf)
    (fun _ _ _ hstep hok hwf => queueStep_refined hwf hok hstep) EventBuffer.wf_zero

/-- The turn of `m_game_spawn_resources`. -/
def spawnBooking : Booking := ⟨20, some .spawnResources, none, none, 0⟩

/-- A command of a player, and what it completes as. -/
def incantationBooking : Booking := ⟨0, some (.command .incantation), some 0, none, 1⟩

def completionBooking : Booking := ⟨300, some .realIncantation, some 0, none, 1⟩

/-- The only event books itself again; then the buffer is filled up and refuses one more at either end; then the
first event, an incantation, puts its completion in its own slot. -/
def rotatingQueue : List QueueAction :=
  [.schedule spawnBooking, .process .nothing, .advance 20, .process (.append spawnBooking), .advance 40,
    .process .nothing] ++ List.replicate 10 (.schedule incantationBooking) ++
    [.schedule incantationBooking, .scheduleFront incantationBooking, .process (.front completionBooking),
      .process .nothing, .advance 340, .process .nothing, .process .nothing]

theorem event_buffer_refines_deque_rotating : AllSteps queueStep QueueRefined {} rotatingQueue := by
  have hguard : testGuard queueStep reentryTest {} rotatingQueue := by decide +kernel
  refine event_buffer_refines_deque rotatingQueue (Guarded.of_test ?_ hguard)
  intro s a htest
  cases a with
  | process reentry =>
    cases reentry with
    | append booking => exact of_decide_eq_true (p := s.buffer.count ≤ 1) htest
    | nothing => trivial
    | front booking => trivial
  | advance t => trivial
  | schedule booking => trivial
  | scheduleFront booking => trivial

end Zappy

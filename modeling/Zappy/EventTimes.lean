import Zappy.TimeApi
import Zappy.Lib.Run

/-!
# The times of queued events

A zeroed buffer driven by `time_api_schedule_client_event` and `time_api_process_client_events`, with a clock that
never goes back and callbacks that leave the buffer alone.  `time_api_schedule_client_event` reads the time of the
slot it is about to write, `events[tail]`, where the contract of a queue asks for the time of the last queued
event, in the slot before it.  So an event queued behind others is due at the right time exactly when the two slots
happen to hold the same time.
-/

namespace Zappy

open Run

/-- A buffer and the clock. -/
structure Clocked where
  now : Nat := 0
  buffer : EventBuffer := {}

inductive TimedOp where
  | schedule (delay : Int) (callback : Option Callback) (data : Option Addr) (arg : Option Arg) (origin : Conn)
  | process
  | advance (t : Nat)

/-- One call, or a later value of `current_time_units`.  A delay is a non-negative `int`. -/
def timedStep (s : Clocked) : TimedOp → Option Clocked
  | .schedule delay callback data arg origin =>
    if 0 ≤ delay ∧ delay < 2 ^ 31 then
      some { s with buffer :=
        (timeApiScheduleClientEvent s.now s.buffer delay callback data arg origin).getD s.buffer }
    else none
  | .process =>
    timeApiProcessClientEvents Clocked.buffer (fun b s => { s with buffer := b }) (fun _ s => some s)
      (fun _ s => s) s.now s
  | .advance t => if s.now ≤ t ∧ t < 2 ^ 64 then some { s with now := t } else none

/-- The times of the queue never decrease from head to tail. -/
def Ordered (l : List Event) : Prop := l.Pairwise fun e e' => e.execTime ≤ e'.execTime

/-- The time an event scheduled now with the given delay should get: the delay after the last queued event, or
after the present when nothing is queued. -/
def dueTime (s : Clocked) (delay : Int) : Int :=
  (s.buffer.queued.getLast?.elim s.now Event.execTime : Nat) + delay

/-- What a step owes to its callers: an accepted event goes to the end of the queue with its due time, no earlier
than any queued event's time plus its own delay, and the queue is ordered. -/
def HonoursDelays (s : Clocked) (op : TimedOp) (s' : Clocked) : Prop :=
  (∀ delay callback data arg origin, op = .schedule delay callback data arg origin → s.buffer.count < maxEvents →
    ∃ ev, s'.buffer.queued = s.buffer.queued ++ [ev] ∧ (ev.execTime : Int) = dueTime s delay ∧
      ∀ e ∈ s.buffer.queued, (e.execTime : Int) + delay ≤ ev.execTime) ∧
  Ordered s'.buffer.queued

/-- When the slot read by `time_api_schedule_client_event` serves: nothing is queued, or the slot under `tail`
holds the same time as the slot before it, the one of the last queued event; and the sum fits `uint64_t`. -/
def TailHoldsLast (s : Clocked) : TimedOp → Prop
  | .schedule delay _ _ _ _ => s.buffer.count < maxEvents →
    if s.buffer.count = 0 then s.now + delay < 2 ^ 64
    else (s.buffer.events s.buffer.tail).execTime =
        (s.buffer.events ((s.buffer.tail + maxEvents - 1) % maxEvents)).execTime ∧
      (s.buffer.events s.buffer.tail).execTime + delay < 2 ^ 64
  | _ => True

/-- What every reachable buffer satisfies as long as the times are honoured. -/
structure Clocked.Inv (s : Clocked) : Prop where
  wf : s.buffer.WF
  times : ∀ i, (s.buffer.events i).execTime < 2 ^ 64
  now : s.now < 2 ^ 64
  ordered : Ordered s.buffer.queued

private theorem Clocked.inv_start : ({} : Clocked).Inv :=
  ⟨EventBuffer.wf_zero, fun _ => Nat.two_pow_pos 64, Nat.two_pow_pos 64, List.Pairwise.nil⟩

private theorem ordered_concat {l : List Event} {ev : Event} (hl : Ordered l) (h : ∀ e ∈ l, e.execTime ≤ ev.execTime) :
    Ordered (l ++ [ev]) := by
  refine List.pairwise_append.2 ⟨hl, List.pairwise_singleton _ _, ?_⟩
  intro e he e' he'
  rw [List.mem_singleton.1 he']
  exact h e he

/-- In an ordered queue the last event is the latest. -/
private theorem ordered_le_last {l : List Event} (hl : Ordered l) {last : Event} (h : l.getLast? = some last) :
    ∀ e ∈ l, e.execTime ≤ last.execTime := by
  intro e he
  obtain ⟨l', rfl⟩ := List.getLast?_eq_some_iff.1 h
  rcases List.mem_append.1 he with he | he
  · exact (List.pairwise_append.1 hl).2.2 e he last (by simp)
  · exact Nat.le_of_eq (congrArg Event.execTime (List.mem_singleton.1 he))

/-- The slot before `tail` is the slot of the last queued event. -/
private theorem EventBuffer.WF.before_tail {b : EventBuffer} (hb : b.WF) (hc : 0 < b.count) :
    (b.tail + maxEvents - 1) % maxEvents = (b.head + b.count - 1) % maxEvents := by
  have h10 : maxEvents = 10 := rfl
  rw [hb.tail, h10]
  omega

/-- Reading the slot under `tail` gives the due time exactly under `TailHoldsLast`. -/
private theorem scheduled_time_iff {s : Clocked} (hs : s.Inv) {delay : Int} (h0 : 0 ≤ delay) (h1 : delay < 2 ^ 31)
    (hc : s.buffer.count < maxEvents) (cb : Option Callback) (data : Option Addr) (arg : Option Arg) (origin : Conn) :
    ((scheduledEvent s.now s.buffer delay cb data arg origin).execTime : Int) = dueTime s delay ↔
      TailHoldsLast s (.schedule delay cb data arg origin) := by
  have ht := hs.times s.buffer.tail
  have hn := hs.now
  unfold scheduledEvent dueTime TailHoldsLast
  by_cases h : s.buffer.count = 0
  · have hq : s.buffer.queued = [] := by rw [← List.length_eq_zero_iff, EventBuffer.length_queued, h]
    simp only [h, hq, Nat.lt_irrefl, if_false, if_true, List.getLast?_nil, Option.elim_none, u64, gt_iff_lt]
    constructor
    · intro he _; omega
    · intro he; have := he (by decide); omega
  · have hpos : 0 < s.buffer.count := Nat.pos_of_ne_zero h
    have hl := hs.times ((s.buffer.head + s.buffer.count - 1) % maxEvents)
    rw [EventBuffer.getLast?_queued hpos, hs.wf.before_tail hpos]
    simp only [gt_iff_lt, hpos, h, hc, if_true, if_false, Option.elim_some, u64, forall_const]
    omega

/-- A step that schedules an event, when there is room. -/
private theorem timedStep_schedule {s s' : Clocked} {delay : Int} {cb : Option Callback} {data : Option Addr}
    {arg : Option Arg} {origin : Conn} (hs : s.Inv) (h : timedStep s (.schedule delay cb data arg origin) = some s')
    (hc : s.buffer.count < maxEvents) :
    0 ≤ delay ∧ delay < 2 ^ 31 ∧ s'.now = s.now ∧ s'.buffer.WF ∧
      (∀ i, (s'.buffer.events i).execTime < 2 ^ 64) ∧
      s'.buffer.queued = s.buffer.queued ++ [scheduledEvent s.now s.buffer delay cb data arg origin] := by
  simp only [timedStep] at h
  split at h
  · rename_i hd
    cases h
    cases hsch : timeApiScheduleClientEvent s.now s.buffer delay cb data arg origin with
    | none => have := schedule_eq_none_iff.1 hsch; omega
    | some b' =>
      obtain ⟨-, hwf, -, hq⟩ := schedule_spec hs.wf hsch
      refine ⟨hd.1, hd.2, rfl, hwf, fun i => ?_, hq⟩
      simp only [timeApiScheduleClientEvent, show ¬ s.buffer.count ≥ maxEvents by omega, if_false,
        Option.some.injEq] at hsch
      subst hsch
      simp only [Option.getD_some, Function.update_apply]
      split
      · dsimp only; split <;> exact u64_lt _
      · exact hs.times i
  · cases h

/-- A step that schedules an event into a full buffer changes nothing. -/
private theorem timedStep_schedule_full {s s' : Clocked} {delay : Int} {cb : Option Callback} {data : Option Addr}
    {arg : Option Arg} {origin : Conn} (h : timedStep s (.schedule delay cb data arg origin) = some s')
    (hc : maxEvents ≤ s.buffer.count) : s' = s := by
  simp only [timedStep, schedule_eq_none_iff.2 hc, Option.getD_none] at h
  split at h
  · exact (Option.some.inj h).symm
  · cases h

/-- Processing takes out at most the first event and keeps the times of all slots. -/
private theorem timedStep_process {s s' : Clocked} (hs : s.Inv) (h : timedStep s .process = some s') : s'.Inv := by
  simp only [timedStep] at h
  rcases process_cases h with ⟨rfl, -⟩ | ⟨hc, -, s₂, hcall, h⟩
  · exact hs
  have h₂ : s₂ = { s with buffer := s.buffer.pop } := by
    split at hcall <;> exact (Option.some.inj hcall).symm
  subst h₂
  have hq := EventBuffer.queued_pop hs.wf hc
  have hord : Ordered s.buffer.pop.queued := by
    have := hs.ordered
    rw [hq] at this
    exact (List.pairwise_cons.1 this).2
  have hpop : ({ s with buffer := s.buffer.pop } : Clocked).Inv :=
    ⟨EventBuffer.pop_wf hs.wf hc, hs.times, hs.now, hord⟩
  rcases h with ⟨rfl, -⟩ | ⟨a, -, -, rfl⟩
  · exact hpop
  · have hcl := EventBuffer.queued_clearArg_pop hs.wf hc
    refine ⟨⟨hpop.wf.head, hpop.wf.count, hpop.wf.tail⟩, fun i => ?_, hs.now, by rw [hcl]; exact hord⟩
    simp only [EventBuffer.clearArg, Function.update_apply]
    split
    · exact hs.times _
    · exact hs.times _

private theorem timedStep_advance {s s' : Clocked} {t : Nat} (hs : s.Inv) (h : timedStep s (.advance t) = some s') :
    s'.Inv := by
  simp only [timedStep] at h
  split at h
  · rename_i ht
    cases h
    exact ⟨hs.wf, hs.times, ht.2, hs.ordered⟩
  · cases h

/-- Under the invariant a step honours the delays exactly when the slot under `tail` serves. -/
private theorem honoursDelays_iff {s s' : Clocked} {op : TimedOp} (hs : s.Inv) (h : timedStep s op = some s') :
    HonoursDelays s op s' ↔ TailHoldsLast s op := by
  cases op with
  | process =>
    exact ⟨fun _ => trivial, fun _ => ⟨(fun _ _ _ _ _ he => by cases he), (timedStep_process hs h).ordered⟩⟩
  | advance t =>
    exact ⟨fun _ => trivial, fun _ => ⟨(fun _ _ _ _ _ he => by cases he), (timedStep_advance hs h).ordered⟩⟩
  | schedule delay cb data arg origin =>
    by_cases hc : s.buffer.count < maxEvents
    · obtain ⟨h0, h1, -, -, -, hq⟩ := timedStep_schedule hs h hc
      have hiff := scheduled_time_iff hs h0 h1 hc cb data arg origin
      constructor
      · rintro ⟨hacc, -⟩
        obtain ⟨ev, hq', htime, -⟩ := hacc _ _ _ _ _ rfl hc
        rw [hq] at hq'
        obtain rfl : scheduledEvent s.now s.buffer delay cb data arg origin = ev := by simpa using hq'
        exact hiff.1 htime
      · intro htail
        have htime := hiff.2 htail
        have hle : ∀ e ∈ s.buffer.queued, (e.execTime : Int) + delay ≤
            (scheduledEvent s.now s.buffer delay cb data arg origin).execTime := by
          intro e he
          rw [htime, dueTime]
          cases hlast : s.buffer.queued.getLast? with
          | none => rw [List.getLast?_eq_none_iff.1 hlast] at he; cases he
          | some last =>
            have := ordered_le_last hs.ordered hlast e he
            simp only [Option.elim_some]
            omega
        refine ⟨?_, ?_⟩
        · intro _ _ _ _ _ he _
          cases he
          exact ⟨_, hq, htime, hle⟩
        · rw [hq]
          exact ordered_concat hs.ordered fun e he => by have := hle e he; omega
    · obtain rfl := timedStep_schedule_full h (by omega)
      exact ⟨fun _ hc' => absurd hc' hc, fun _ => ⟨fun _ _ _ _ _ _ hc' => absurd hc' hc, hs.ordered⟩⟩

/-- A step that honours the delays keeps the invariant. -/
theorem HonoursDelays.inv {s s' : Clocked} {op : TimedOp} (hs : s.Inv) (h : timedStep s op = some s')
    (hh : HonoursDelays s op s') : s'.Inv := by
  cases op with
  | process => exact timedStep_process hs h
  | advance t => exact timedStep_advance hs h
  | schedule delay cb data arg origin =>
    by_cases hc : s.buffer.count < maxEvents
    · obtain ⟨-, -, hnow, hwf, htimes, -⟩ := timedStep_schedule hs h hc
      exact ⟨hwf, htimes, hnow ▸ hs.now, hh.2⟩
    · obtain rfl := timedStep_schedule_full h (by omega)
      exact hs

/-- A run honours all delays exactly when, each time an event is queued behind others, the slot under `tail` holds
the time of the last queued event (and no time overflows). -/
theorem delays_honoured_iff (ops : List TimedOp) :
    AllSteps timedStep HonoursDelays ({} : Clocked) ops ↔ Guarded timedStep TailHoldsLast ({} : Clocked) ops := by
  refine AllSteps.congr ?_ ?_ Clocked.inv_start ops
  · intro s op s' h hs
    exact honoursDelays_iff hs h
  · intro s op s' h hs hh
    exact hh.inv hs h

/-- Two commands of delay 7 sent together at time 0: both are due at time 7, the second one 7 units early. -/
theorem pipelined_commands_due_together :
    ¬ AllSteps timedStep HonoursDelays ({} : Clocked) [.schedule 7 (some (.command .avance)) none none 0,
      .schedule 7 (some (.command .avance)) none none 0] := by
  intro h
  obtain ⟨-, h⟩ := h _ rfl
  obtain ⟨⟨hacc, -⟩, -⟩ := h _ rfl
  obtain ⟨ev, hq, htime, -⟩ := hacc _ _ _ _ _ rfl (by decide)
  have hev : ev.execTime = 7 := by
    have := congrArg (fun l => l.getLast?.map Event.execTime) hq
    rw [List.getLast?_concat] at this
    exact (Option.some.inj this).symm
  rw [hev] at htime
  exact absurd htime (by decide)

end Zappy

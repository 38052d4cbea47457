import Zappy.Structs
import Zappy.Lib.RingBuffer

/-!
# The event buffer (`time_api.c`)

The three operations on an event buffer, and what each does to the queue of events the buffer stands for: the
slots from `head` on, `count` long.  `time_api_process_client_events` is written over any state that holds the
buffer, since the callback it runs may change that state and the buffer in it.  The error return for a missing
`m_time` is left out: `main` sets it before the first event.
-/

namespace Zappy

open RingBuffer

namespace EventBuffer

/-- The queued events, the next one first. -/
def queued (b : EventBuffer) : List Event := window maxEvents b.events b.head b.count

/-- `head`, `count` and `tail` fit together. -/
structure WF (b : EventBuffer) : Prop where
  head : b.head < maxEvents
  count : b.count ≤ maxEvents
  tail : b.tail = (b.head + b.count) % maxEvents

theorem wf_zero : ({} : EventBuffer).WF := ⟨by decide, by decide, rfl⟩

@[simp] theorem queued_zero : ({} : EventBuffer).queued = [] := rfl

@[simp] theorem length_queued (b : EventBuffer) : b.queued.length = b.count := by
  simp [queued]

/-- The buffer after its first event is taken out. -/
def pop (b : EventBuffer) : EventBuffer :=
  { b with head := (b.head + 1) % maxEvents, count := b.count - 1 }

/-- The buffer with the argument of slot `i` set to `NULL`. -/
def clearArg (b : EventBuffer) (i : Nat) : EventBuffer :=
  { b with events := Function.update b.events i { b.events i with arg := none } }

end EventBuffer

/-- `m_is_event_buffer_full`. -/
def isEventBufferFull (b : EventBuffer) : Bool := b.count == maxEvents

/-- `time_api_schedule_client_event`; `none` for the return value `-1`, which leaves the buffer as it was. -/
def timeApiScheduleClientEvent (now : Nat) (b : EventBuffer) (delay : Int) (callback : Option Callback)
    (data : Option Addr) (arg : Option Arg) (origin : Conn) : Option EventBuffer :=
  if b.count ≥ maxEvents then none
  else
    let execTime := if b.count > 0 then u64 ((b.events b.tail).execTime + delay) else u64 (now + delay)
    some { b with
      events := Function.update b.events b.tail ⟨execTime, callback, data, arg, origin⟩
      tail := (b.tail + 1) % maxEvents
      count := b.count + 1 }

/-- `time_api_schedule_client_event_front`. -/
def timeApiScheduleClientEventFront (now : Nat) (b : EventBuffer) (delay : Int) (callback : Option Callback)
    (data : Option Addr) (arg : Option Arg) (origin : Conn) : Option EventBuffer :=
  if isEventBufferFull b then none
  else
    let head := (b.head + maxEvents - 1) % maxEvents
    some { b with
      events := Function.update b.events head ⟨u64 (now + delay), callback, data, arg, origin⟩
      head := head
      count := b.count + 1 }

/-- `time_api_process_client_events` on the buffer that `get` reads and `set` writes in a larger state.  `call`
runs the callback of an event and `free` releases an argument.  The event is read again after the callback, in
its old slot, as the source does through `ev`. -/
def timeApiProcessClientEvents {σ : Type*} (get : σ → EventBuffer) (set : EventBuffer → σ → σ)
    (call : Event → σ → Option σ) (free : Addr → σ → σ) (now : Nat) (s : σ) : Option σ :=
  let b := get s
  if b.count > 0 then
    let ev := b.events b.head
    if ev.execTime ≤ now then
      let s₁ := set b.pop s
      (if ev.callback.isSome then call ev s₁ else some s₁).map fun s₂ =>
        let b₂ := get s₂
        match (b₂.events b.head).arg with
        | some a => if b.pop.head = b₂.head then free a.addr (set (b₂.clearArg b.head) s₂) else s₂
        | none => s₂
    else some s
  else some s

namespace EventBuffer

theorem pop_wf {b : EventBuffer} (hb : b.WF) (hc : 0 < b.count) : b.pop.WF := by
  refine ⟨Nat.mod_lt _ (by decide), by have := hb.count; simp only [pop]; omega, ?_⟩
  simp only [pop, hb.tail, Nat.mod_add_mod]
  congr 1
  omega

/-- Taking out the first event. -/
theorem queued_pop {b : EventBuffer} (hb : b.WF) (hc : 0 < b.count) :
    b.queued = b.events b.head :: b.pop.queued :=
  window_pop hb.head hc _

/-- The slot just left is not among the queued ones, so clearing its argument does not show in the queue. -/
theorem queued_clearArg_pop {b : EventBuffer} (hb : b.WF) (hc : 0 < b.count) :
    (b.pop.clearArg b.head).queued = b.pop.queued := by
  apply window_update_of_ne
  intro k hk he
  have h1 := hb.head
  have h2 := hb.count
  have h10 : maxEvents = 10 := rfl
  simp only [clearArg, pop, h10] at *
  omega

/-- The last queued event lies in the slot before `tail`. -/
theorem getLast?_queued {b : EventBuffer} (hc : 0 < b.count) :
    b.queued.getLast? = some (b.events ((b.head + b.count - 1) % maxEvents)) :=
  getLast?_window hc _

end EventBuffer

section Schedule

variable {now : Nat} {b b' : EventBuffer} {delay : Int} {cb : Option Callback} {data : Option Addr}
  {arg : Option Arg} {origin : Conn}

/-- The event that `time_api_schedule_client_event` puts in the buffer. -/
def scheduledEvent (now : Nat) (b : EventBuffer) (delay : Int) (cb : Option Callback) (data : Option Addr)
    (arg : Option Arg) (origin : Conn) : Event :=
  ⟨if b.count > 0 then u64 ((b.events b.tail).execTime + delay) else u64 (now + delay), cb, data, arg, origin⟩

theorem schedule_eq_none_iff :
    timeApiScheduleClientEvent now b delay cb data arg origin = none ↔ maxEvents ≤ b.count := by
  unfold timeApiScheduleClientEvent
  split <;> simp_all

/-- A scheduled event goes to the end of the queue, and only when there is room. -/
theorem schedule_spec (hb : b.WF)
    (h : timeApiScheduleClientEvent now b delay cb data arg origin = some b') :
    b.count < maxEvents ∧ b'.WF ∧ b'.count = b.count + 1 ∧
      b'.queued = b.queued ++ [scheduledEvent now b delay cb data arg origin] := by
  unfold timeApiScheduleClientEvent at h
  split at h
  · cases h
  · rename_i hc
    have hc' : b.count < maxEvents := by omega
    cases h
    refine ⟨hc', ⟨hb.head, hc', ?_⟩, rfl, ?_⟩
    · simp only [hb.tail, Nat.mod_add_mod]
      rfl
    · simp only [EventBuffer.queued]
      rw [hb.tail, window_push_back hc']
      simp only [scheduledEvent, hb.tail]

/-- An event scheduled at the front becomes the next one. -/
theorem scheduleFront_spec (hb : b.WF)
    (h : timeApiScheduleClientEventFront now b delay cb data arg origin = some b') :
    b.count < maxEvents ∧ b'.WF ∧ b'.count = b.count + 1 ∧
      b'.queued = ⟨u64 (now + delay), cb, data, arg, origin⟩ :: b.queued := by
  unfold timeApiScheduleClientEventFront isEventBufferFull at h
  split at h
  · cases h
  · rename_i hc
    have hc' : b.count < maxEvents := by have := hb.count; simp at hc; omega
    cases h
    refine ⟨hc', ⟨Nat.mod_lt _ (by decide), hc', ?_⟩, rfl, window_push_front hb.head hc' _ _⟩
    simp only [hb.tail, Nat.mod_add_mod]
    rw [show b.head + maxEvents - 1 + (b.count + 1) = b.head + b.count + maxEvents by
      have : 0 < maxEvents := by decide
      omega, Nat.add_mod_right]

theorem scheduleFront_isSome (hc : b.count < maxEvents) :
    (timeApiScheduleClientEventFront now b delay cb data arg origin).isSome := by
  unfold timeApiScheduleClientEventFront isEventBufferFull
  rw [if_neg (by simp; omega)]
  rfl

end Schedule

/-- What `time_api_process_client_events` does: nothing when no event is due; else it takes out the first event,
runs its callback, and then releases the argument left in the old slot if the callback left `head` alone. -/
theorem process_cases {σ : Type*} {get : σ → EventBuffer} {set : EventBuffer → σ → σ}
    {call : Event → σ → Option σ} {free : Addr → σ → σ} {now : Nat} {s s' : σ}
    (h : timeApiProcessClientEvents get set call free now s = some s') :
    (s' = s ∧ ¬ (0 < (get s).count ∧ ((get s).events (get s).head).execTime ≤ now)) ∨
    (0 < (get s).count ∧ ((get s).events (get s).head).execTime ≤ now ∧
      ∃ s₂, (if ((get s).events (get s).head).callback.isSome
          then call ((get s).events (get s).head) (set (get s).pop s) else some (set (get s).pop s)) = some s₂ ∧
        (s' = s₂ ∧ (∀ a, ((get s₂).events (get s).head).arg = some a → (get s).pop.head ≠ (get s₂).head) ∨
          ∃ a, ((get s₂).events (get s).head).arg = some a ∧ (get s).pop.head = (get s₂).head ∧
            s' = free a.addr (set ((get s₂).clearArg (get s).head) s₂))) := by
  unfold timeApiProcessClientEvents at h
  dsimp only at h
  split at h
  · rename_i hc
    split at h
    · rename_i hdue
      simp only [Option.map_eq_some_iff] at h
      obtain ⟨s₂, hcall, rfl⟩ := h
      refine Or.inr ⟨hc, hdue, s₂, hcall, ?_⟩
      split
      · rename_i a ha
        split
        · rename_i hh
          exact Or.inr ⟨a, ha, hh, rfl⟩
        · rename_i hh
          exact Or.inl ⟨rfl, fun _ _ => hh⟩
      · rename_i hnone
        exact Or.inl ⟨rfl, fun _ ha => by rw [hnone] at ha; cases ha⟩
    · rename_i hdue
      cases h
      exact Or.inl ⟨rfl, fun h' => hdue h'.2⟩
  · rename_i hc
    cases h
    exact Or.inl ⟨rfl, fun h' => hc h'.1⟩

end Zappy

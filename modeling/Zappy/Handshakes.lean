import Zappy.Lib.Run
import Zappy.Lib.RingBuffer
import Zappy.MachineSteps

/-!
# The handshake worker (`ssl_al_workers.c`)

The main thread puts accepted connections in a ring of 1024 slots; the worker takes them out one at a time, does
the handshake and puts them in a second ring, which the main thread empties into `on_handshake_done`.  A ring has
no count: `head == tail` means that it is empty, and nothing checks that it is not full.  The sections under a lock
are the steps; the handshakes succeed.

The machine keeps the tasks of the two rings as lists, and these are what the rings hold along every run.
-/

namespace Zappy

open Run RingBuffer Relation

/-- `handshake_task_t`; a pointer is a number. -/
structure HandshakeTask where
  fd : Fd := 0
  ssl : Nat := 0
  deriving DecidableEq, Repr

/-- The number of slots of `task_fds_q` and `task_fds_dq`. -/
def taskSlots : Nat := 1024

/-- One of the two rings. -/
structure TaskRing where
  tasks : Nat → HandshakeTask := fun _ => {}
  head : Nat := 0
  tail : Nat := 0

namespace TaskRing

variable (r : TaskRing)

def push (task : HandshakeTask) : TaskRing :=
  { r with tasks := Function.update r.tasks r.tail task, tail := (r.tail + 1) % taskSlots }

/-- The task at `head`, and the ring without it. -/
def take : Option (HandshakeTask × TaskRing) :=
  if r.head = r.tail then none else some (r.tasks r.head, { r with head := (r.head + 1) % taskSlots })

/-- The tasks in the ring, the next one first. -/
def pending : List HandshakeTask := window taskSlots r.tasks r.head (span taskSlots r.head r.tail)

/-- The indexes are those of slots. -/
structure WF : Prop where
  head : r.head < taskSlots
  tail : r.tail < taskSlots

end TaskRing

/-- The two rings and the threads, with ghosts for what was queued and what `on_handshake_done` was given. -/
structure HandshakePool where
  q : TaskRing := {}
  dq : TaskRing := {}
  /-- The task that the worker has taken. -/
  working : Option HandshakeTask := none
  /-- The main thread is in `ssl_al_worker_dequeue_all`. -/
  draining : Bool := false
  queued : List HandshakeTask := []
  delivered : List HandshakeTask := []

inductive PoolAction where
  | queue (task : HandshakeTask)
  | take
  | finish
  | dequeueAll
  | dequeue

namespace HandshakePool

variable (s : HandshakePool)

/-- `ssl_al_worker_queue`. -/
def queue (task : HandshakeTask) : HandshakePool :=
  { s with q := s.q.push task, queued := s.queued ++ [task] }

/-- `ssl_al_worker_dequeue`, with the call of `on_handshake_done`; the loop of `ssl_al_worker_dequeue_all` ends with
the call that finds nothing. -/
def dequeue : HandshakePool :=
  match s.dq.take with
  | none => { s with draining := false }
  | some (task, dq) => { s with dq := dq, delivered := s.delivered ++ [task] }

end HandshakePool

/-- One step of a thread.  The worker waits while there is no task. -/
def poolStep (s : HandshakePool) : PoolAction → Option HandshakePool
  | .queue task => some (s.queue task)
  | .take =>
    match s.working, s.q.take with
    | none, some (task, q) => some { s with q := q, working := some task }
    | _, _ => none
  | .finish => s.working.map fun task => { s with dq := s.dq.push task, working := none }
  | .dequeueAll => if s.draining then none else some { s with draining := true }
  | .dequeue => some s.dequeue

/-- The tasks queued so far are those delivered, those done, the one the worker has and those that wait, in this
order and each once. -/
def NoTaskLost (s : HandshakePool) : Prop :=
  s.queued = s.delivered ++ s.dq.pending ++ s.working.toList ++ s.q.pending

/-- A ring that is written to has two free slots. -/
def RoomLeft (s : HandshakePool) : PoolAction → Prop
  | .queue _ => s.q.pending.length + 1 < taskSlots
  | .finish => s.dq.pending.length + 1 < taskSlots
  | _ => True

/-! ### The rings -/

namespace TaskRing

variable {r r' : TaskRing} {task : HandshakeTask}

theorem wf_zero : ({} : TaskRing).WF := ⟨by decide, by decide⟩

@[simp] theorem pending_zero : ({} : TaskRing).pending = [] := rfl

private theorem length_pending : r.pending.length = span taskSlots r.head r.tail := window_length _ _ _ _

private theorem length_pending_lt (r : TaskRing) : r.pending.length < taskSlots := by
  rw [length_pending]
  exact span_lt (by decide) _ _

private theorem push_wf (h : r.WF) (task : HandshakeTask) : (r.push task).WF := ⟨h.head, Nat.mod_lt _ (by decide)⟩

/-- A task goes to the end, unless `tail` comes round to `head`: then nothing is left. -/
private theorem pending_push (h : r.WF) (task : HandshakeTask) : (r.push task).pending = pushTask r.pending task := by
  have hspan := span_push h.head h.tail
  have htail := add_span h.head h.tail
  have hlt := r.length_pending_lt
  unfold pushTask
  rw [length_pending] at *
  by_cases hfull : span taskSlots r.head r.tail + 1 = taskSlots
  · rw [if_pos hfull] at hspan
    rw [if_pos (by rw [hfull]; rfl)]
    simp only [pending, push, hspan, window_zero]
  · rw [if_neg hfull] at hspan
    rw [if_neg (show ¬ span taskSlots r.head r.tail + 1 = 1024 from hfull)]
    simp only [pending, push, hspan]
    rw [← window_push_back hlt r.tasks task, htail]

private theorem take_eq_none_iff (h : r.WF) : r.take = none ↔ r.pending = [] := by
  rw [← List.length_eq_zero_iff, length_pending, span_eq_zero_iff h.head h.tail]
  unfold take
  split <;> simp_all

/-- What is taken is the first of the tasks in the ring. -/
private theorem take_spec (h : r.WF) (htake : r.take = some (task, r')) : r'.WF ∧ r.pending = task :: r'.pending := by
  unfold take at htake
  split at htake
  · cases htake
  · rename_i hne
    cases htake
    have hpos : 0 < span taskSlots r.head r.tail := by
      have := (span_eq_zero_iff h.head h.tail).not.2 hne
      omega
    refine ⟨⟨Nat.mod_lt _ (by decide), h.tail⟩, ?_⟩
    rw [pending, window_pop h.head hpos, ← span_pop h.head h.tail hne]
    rfl

end TaskRing

/-! ### The pool -/

section Pool

variable {s s' : HandshakePool} {a : PoolAction}

/-- The invariant of a run that has lost no task. -/
structure PoolInv (s : HandshakePool) : Prop where
  q : s.q.WF
  dq : s.dq.WF
  kept : NoTaskLost s

private theorem poolInv_start : PoolInv {} := ⟨TaskRing.wf_zero, TaskRing.wf_zero, rfl⟩

/-- A push keeps every task exactly when there is room for it. -/
private theorem pushTask_eq_concat_iff {α : Type} (tasks : List α) (task : α) (hlt : tasks.length < taskSlots) :
    pushTask tasks task = tasks ++ [task] ↔ tasks.length + 1 < taskSlots := by
  have h1024 : taskSlots = 1024 := rfl
  unfold pushTask
  by_cases hfull : tasks.length + 1 = 1024
  · rw [if_pos hfull]
    constructor
    · intro he
      simp at he
    · intro hroom
      omega
  · rw [if_neg hfull]
    exact ⟨fun _ => by omega, fun _ => rfl⟩

private theorem queue_kept_iff (hs : PoolInv s) (task : HandshakeTask) :
    NoTaskLost (s.queue task) ↔ s.q.pending.length + 1 < taskSlots := by
  rw [← pushTask_eq_concat_iff s.q.pending task s.q.length_pending_lt]
  unfold NoTaskLost HandshakePool.queue
  rw [hs.kept, TaskRing.pending_push hs.q task]
  simp only [List.append_assoc, List.append_cancel_left_eq]
  exact eq_comm

private theorem finish_kept_iff (hs : PoolInv s) {task : HandshakeTask} (hw : s.working = some task) :
    NoTaskLost { s with dq := s.dq.push task, working := none } ↔ s.dq.pending.length + 1 < taskSlots := by
  rw [← pushTask_eq_concat_iff s.dq.pending task s.dq.length_pending_lt]
  have hkept := hs.kept
  unfold NoTaskLost at *
  rw [hkept, TaskRing.pending_push hs.dq task, hw]
  simp only [Option.toList, List.append_nil, List.append_cancel_right_eq]
  rw [List.append_assoc, List.append_cancel_left_eq]
  exact eq_comm

private theorem take_kept (hs : PoolInv s) (h : poolStep s .take = some s') : PoolInv s' := by
  simp only [poolStep] at h
  split at h
  · rename_i task q hw htake
    cases h
    obtain ⟨hwf, hpending⟩ := TaskRing.take_spec hs.q htake
    refine ⟨hwf, hs.dq, ?_⟩
    have hkept := hs.kept
    unfold NoTaskLost at *
    rw [hkept, hw, hpending]
    simp
  · cases h

private theorem dequeue_kept (hs : PoolInv s) : PoolInv s.dequeue := by
  unfold HandshakePool.dequeue
  split
  · exact ⟨hs.q, hs.dq, hs.kept⟩
  · rename_i task dq htake
    obtain ⟨hwf, hpending⟩ := TaskRing.take_spec hs.dq htake
    refine ⟨hs.q, hwf, ?_⟩
    have hkept := hs.kept
    unfold NoTaskLost at *
    rw [hkept, hpending]
    simp

/-- From a state that has lost nothing, a step loses a task exactly when it writes to a ring without room. -/
private theorem noTaskLost_step_iff (hs : PoolInv s) (h : poolStep s a = some s') : NoTaskLost s' ↔ RoomLeft s a := by
  cases a with
  | queue task =>
    cases h
    exact queue_kept_iff hs task
  | take => exact ⟨fun _ => trivial, fun _ => (take_kept hs h).kept⟩
  | finish =>
    simp only [poolStep, Option.map_eq_some_iff] at h
    obtain ⟨task, hw, rfl⟩ := h
    exact finish_kept_iff hs hw
  | dequeueAll =>
    simp only [poolStep] at h
    split at h
    · cases h
    · cases h
      exact ⟨fun _ => trivial, fun _ => hs.kept⟩
  | dequeue =>
    cases h
    exact ⟨fun _ => trivial, fun _ => (dequeue_kept hs).kept⟩

private theorem poolStep_wf (hs : PoolInv s) (h : poolStep s a = some s') (hkept : NoTaskLost s') : PoolInv s' := by
  cases a with
  | queue task =>
    cases h
    exact ⟨TaskRing.push_wf hs.q task, hs.dq, hkept⟩
  | take => exact take_kept hs h
  | finish =>
    simp only [poolStep, Option.map_eq_some_iff] at h
    obtain ⟨task, -, rfl⟩ := h
    exact ⟨hs.q, TaskRing.push_wf hs.dq task, hkept⟩
  | dequeueAll =>
    simp only [poolStep] at h
    split at h
    · cases h
    · cases h
      exact ⟨hs.q, hs.dq, hkept⟩
  | dequeue =>
    cases h
    exact dequeue_kept hs

/-- When both rings look empty and the worker waits, everything queued has been delivered. -/
theorem PoolInv.all_delivered (hs : PoolInv s) (hq : s.q.take = none) (hdq : s.dq.take = none)
    (hw : s.working = none) : s.delivered = s.queued := by
  have hkept := hs.kept
  unfold NoTaskLost at hkept
  rw [hkept, (TaskRing.take_eq_none_iff hs.q).1 hq, (TaskRing.take_eq_none_iff hs.dq).1 hdq, hw]
  simp

/-- `ssl_al_worker_dequeue_all`, undisturbed by the worker: it delivers what is done and returns. -/
theorem dequeueAll_run (hs : PoolInv s) (hd : s.draining = false) :
    ∃ s', run poolStep s (.dequeueAll :: List.replicate (s.dq.pending.length + 1) .dequeue) = some s' ∧
      s'.delivered = s.delivered ++ s.dq.pending ∧ s'.dq.pending = [] ∧ s'.draining = false := by
  have hloop : ∀ n (s : HandshakePool), PoolInv s → s.dq.pending.length = n →
      ∃ s', run poolStep s (List.replicate (n + 1) .dequeue) = some s' ∧
        s'.delivered = s.delivered ++ s.dq.pending ∧ s'.dq.pending = [] ∧ s'.draining = false := by
    intro n
    induction n with
    | zero =>
      intro s hs hlen
      have hnil : s.dq.pending = [] := List.eq_nil_of_length_eq_zero hlen
      have hnone := (TaskRing.take_eq_none_iff hs.dq).2 hnil
      refine ⟨{ s with draining := false }, ?_, by simp [hnil], hnil, rfl⟩
      simp [run, poolStep, HandshakePool.dequeue, hnone]
    | succ n ih =>
      intro s hs hlen
      cases htake : s.dq.take with
      | none =>
        rw [(TaskRing.take_eq_none_iff hs.dq).1 htake] at hlen
        simp at hlen
      | some p =>
        obtain ⟨task, dq⟩ := p
        obtain ⟨-, hpending⟩ := TaskRing.take_spec hs.dq htake
        have hnext := dequeue_kept hs
        have hstep : s.dequeue = { s with dq := dq, delivered := s.delivered ++ [task] } := by
          simp only [HandshakePool.dequeue, htake]
        rw [hstep] at hnext
        rw [hpending] at hlen
        obtain ⟨s', hrun, hdel, hnil, hdone⟩ := ih _ hnext (Nat.succ.inj hlen)
        refine ⟨s', ?_, ?_, hnil, hdone⟩
        · rw [List.replicate_succ, run_cons (show poolStep s .dequeue = some s.dequeue from rfl), hstep]
          exact hrun
        · rw [hdel, hpending]
          simp
  have hstart : poolStep s .dequeueAll = some { s with draining := true } := by simp [poolStep, hd]
  rw [run_cons hstart]
  exact hloop _ { s with draining := true } ⟨hs.q, hs.dq, hs.kept⟩ rfl

end Pool

/-- A run of the pool loses no task exactly when it never writes to a ring that holds 1023 tasks. -/
theorem no_task_lost_iff (as : List PoolAction) :
    AllSteps poolStep (fun _ _ s => NoTaskLost s) {} as ↔ Guarded poolStep RoomLeft {} as := by
  refine AllSteps.congr (I := PoolInv) ?_ ?_ poolInv_start as
  · exact fun s a s' hstep hs => noTaskLost_step_iff hs hstep
  · exact fun s a s' hstep hs hkept => poolStep_wf hs hstep hkept

/-- Calls of `ssl_al_worker_queue` while the worker does nothing. -/
private theorem queue_run (tasks : List HandshakeTask) {s : HandshakePool} (htail : s.q.tail < taskSlots) :
    ∃ s', run poolStep s (tasks.map .queue) = some s' ∧ s'.queued = s.queued ++ tasks ∧
      s'.delivered = s.delivered ∧ s'.dq = s.dq ∧ s'.working = s.working ∧ s'.q.head = s.q.head ∧
      s'.q.tail = (s.q.tail + tasks.length) % taskSlots := by
  induction tasks generalizing s with
  | nil => exact ⟨s, rfl, by simp, rfl, rfl, rfl, rfl, by simp [Nat.mod_eq_of_lt htail]⟩
  | cons task tasks ih =>
    have hlt : (s.queue task).q.tail < taskSlots := Nat.mod_lt _ (by decide)
    obtain ⟨s', hrun, hqueued, hdel, hdq, hw, hhead, ht⟩ := ih hlt
    refine ⟨s', ?_, ?_, hdel, hdq, hw, hhead, ?_⟩
    · rw [List.map_cons, run_cons (show poolStep s (.queue task) = some (s.queue task) from rfl)]
      exact hrun
    · rw [hqueued]
      simp [HandshakePool.queue]
    · rw [ht]
      simp only [HandshakePool.queue, TaskRing.push, Nat.mod_add_mod, List.length_cons]
      congr 1
      omega

/-- As many calls as the ring has slots: it looks empty again, and all the tasks are lost. -/
private theorem taskSlots_calls_lost {tasks : List HandshakeTask} (hlen : tasks.length = taskSlots) :
    ¬ AllSteps poolStep (fun _ _ s => NoTaskLost s) {} (tasks.map .queue) := by
  intro h
  obtain ⟨s', hrun, hqueued, hdel, hdq, hw, hhead, htail⟩ := queue_run tasks (s := {}) (by decide)
  have hkept : NoTaskLost s' := h.at_end hrun poolInv_start.kept
  have hempty : s'.q.pending = [] := by
    rw [hlen] at htail
    simp [TaskRing.pending, hhead, htail, span, taskSlots]
  unfold NoTaskLost at hkept
  rw [hqueued, hdel, hdq, hw, hempty] at hkept
  have hnil : tasks = [] := by simpa using hkept
  rw [hnil] at hlen
  cases hlen

/-- Connections that are accepted while the worker is busy with a slow peer. -/
def burst : List HandshakeTask := (List.range 1024).map fun i => ⟨i + 5, i + 1⟩

theorem burst_lost : ¬ AllSteps poolStep (fun _ _ s => NoTaskLost s) {} (burst.map .queue) :=
  taskSlots_calls_lost (by simp [burst, taskSlots])

/-! ### The rings of the machine -/

/-- What a step of the machine does to the pool.  The worker drops the task of a handshake that fails. -/
inductive PoolMove (s : HandshakePool) : HandshakePool → Prop
  | idle : PoolMove s s
  | queued (task : HandshakeTask) : PoolMove s (s.queue task)
  | finished {s' : HandshakePool} (h : run poolStep s [.take, .finish] = some s') : PoolMove s s'
  | dropped {s₁ : HandshakePool} (h : poolStep s .take = some s₁) : PoolMove s { s₁ with working := none }
  | delivered : PoolMove s s.dequeue

/-- The lists of the machine are what the rings hold, and the worker is between two tasks. -/
structure Carries (m : Machine) (s : HandshakePool) : Prop where
  q : s.q.WF
  dq : s.dq.WF
  working : s.working = none
  handshakes : m.handshakes = s.q.pending.map HandshakeTask.fd
  finished : m.finished.map Prod.fst = s.dq.pending.map HandshakeTask.fd

private theorem map_pushTask {α β : Type} (f : α → β) (tasks : List α) (task : α) :
    (pushTask tasks task).map f = pushTask (tasks.map f) (f task) := by
  unfold pushTask
  rw [List.length_map]
  split
  · rfl
  · rw [List.map_append]
    rfl

section Carries

variable {cfg : Config} {m m' : Machine} {act : MachineAction} {s s' : HandshakePool} {r : TaskRing} {fd : Fd}
  {rest : List Fd}

/-- The first task of a ring. -/
private theorem TaskRing.take_of_pending (hr : r.WF) (h : fd :: rest = r.pending.map HandshakeTask.fd) :
    ∃ task r', r.take = some (task, r') ∧ r'.WF ∧ task.fd = fd ∧ rest = r'.pending.map HandshakeTask.fd := by
  cases htake : r.take with
  | none =>
    rw [(take_eq_none_iff hr).1 htake] at h
    cases h
  | some p =>
    obtain ⟨hwf, hpending⟩ := take_spec hr htake
    rw [hpending, List.map_cons, List.cons.injEq] at h
    exact ⟨p.1, p.2, rfl, hwf, h.1.symm, h.2⟩

theorem Carries.congr (h : Carries m s) (hq : m'.handshakes = m.handshakes) (hdq : m'.finished = m.finished) :
    Carries m' s := ⟨h.q, h.dq, h.working, hq.trans h.handshakes, by rw [hdq, h.finished]⟩

/-- A task that the worker takes and drops. -/
theorem Carries.dropped (h : Carries m s) (hq : m.handshakes = fd :: rest) (hq' : m'.handshakes = rest)
    (hdq : m'.finished = m.finished) : ∃ s', PoolMove s s' ∧ Carries m' s' := by
  obtain ⟨task, q, htake, hwf, -, hrest⟩ := TaskRing.take_of_pending h.q (hq.symm.trans h.handshakes)
  have htaken : poolStep s .take = some { s with q := q, working := some task } := by
    simp [poolStep, h.working, htake]
  exact ⟨_, .dropped htaken, hwf, h.dq, rfl, hq'.trans hrest, by rw [hdq, h.finished]⟩

/-- A task that `on_handshake_done` is given. -/
private theorem Carries.delivered (h : Carries m s) {e : Fd × Conn} {done : List (Fd × Conn)}
    (hq : m.finished = e :: done) (hq' : m'.handshakes = m.handshakes) (hdq : m'.finished = done) :
    ∃ s', PoolMove s s' ∧ Carries m' s' := by
  have hfinished := h.finished
  rw [hq, List.map_cons] at hfinished
  obtain ⟨task, dq, htake, hwf, -, hdone⟩ := TaskRing.take_of_pending h.dq hfinished
  refine ⟨_, .delivered, ?_⟩
  simp only [HandshakePool.dequeue, htake]
  exact ⟨h.q, hwf, h.working, hq'.trans h.handshakes, by rw [hdq, hdone]⟩

/-- Every step of the machine is a move of the pool. -/
theorem Carries.step (h : Carries m s) (hmove : MachineMove cfg m act m') : ∃ s', PoolMove s s' ∧ Carries m' s' := by
  cases hmove with
  | @handshakeReady fd rest k hq howner =>
    obtain ⟨task, q, htake, hwf, rfl, hrest⟩ := TaskRing.take_of_pending h.q (hq.symm.trans h.handshakes)
    have hrun : run poolStep s [.take, .finish] =
        some { s with q := q, dq := s.dq.push task, working := none } := by
      simp [run, poolStep, h.working, htake]
    refine ⟨_, .finished hrun, hwf, TaskRing.push_wf h.dq task, rfl, hrest, ?_⟩
    dsimp only
    rw [TaskRing.pending_push h.dq, map_pushTask, map_pushTask, h.finished]
  | handshakeFailed hq => exact h.dropped hq rfl rfl
  | handshakeLost hq => exact h.dropped hq rfl rfl
  | welcomed _ hq => exact h.delivered hq rfl rfl
  | refused _ hq => exact h.delivered hq rfl rfl
  | @accept fd new =>
    refine ⟨_, .queued ⟨new, 0⟩, TaskRing.push_wf h.q _, h.dq, h.working, ?_, h.finished⟩
    dsimp only [HandshakePool.queue]
    rw [TaskRing.pending_push h.q, map_pushTask, h.handshakes]
  | _ => exact ⟨s, .idle, h.congr rfl rfl⟩

/-- Along every run of the machine its lists of handshakes are the tasks of the two rings. -/
theorem carries_of_run (cfg : Config) (width height : Nat) (teams : List String) (nbClients : Nat)
    (counts : Nat → InventoryType → Nat) (as : List MachineAction)
    (h : run (machineStep cfg) (machineInit cfg width height teams nbClients counts) as = some m) :
    ∃ s, ReflTransGen PoolMove {} s ∧ Carries m s := by
  have hfree : ∀ m₀ : Machine, Guarded (machineStep cfg) (fun _ _ => True) m₀ as := fun _ =>
    AllSteps.of_forall fun _ _ _ _ => trivial
  refine (hfree _).invariant (I := fun m => ∃ s, ReflTransGen PoolMove {} s ∧ Carries m s) ?_ h
    ⟨{}, .refl, TaskRing.wf_zero, TaskRing.wf_zero, rfl, rfl, rfl⟩
  rintro m act m' hstep - ⟨s, hs, hm⟩
  obtain ⟨s', hmove, hm'⟩ := hm.step (machineStep_move hstep)
  exact ⟨s', hs.tail hmove, hm'⟩

end Carries

end Zappy

import Zappy.Accounts
import Zappy.PendingResponses

/-!
# Flow control between a Java client and the server

The client sends no command while `pendingResponses` is 10, so that no more than `MAX_EVENTS` of its commands are
under way and its buffer on the server never overflows.  The counter goes down with every message of type `response`.
It is right as long as all of them are answers; a notice counts as an answer that was never due.
-/

namespace Zappy

open Run Stateful

variable {cfg : Config} {K : Conn}

/-! ### The client and the server -/

/-- The machine, and the Java client of one connection. -/
structure Duplex where
  machine : Machine
  client : JavaClient
  /-- How many texts of the client the machine has received. -/
  taken : Nat := 0
  /-- How many messages of the machine the client has processed. -/
  read : Nat := 0

/-- The steps of the two. -/
inductive DuplexAction where
  | server (act : MachineAction)
  /-- `onMessage`. -/
  | message (advice : Advice)
  /-- `onClose`. -/
  | close
  /-- `onError`. -/
  | error

/-- One step of the machine or of the client of the connection `K`.  Both read what the other has sent in order. -/
def duplexStep (cfg : Config) (K : Conn) (d : Duplex) : DuplexAction → Option Duplex
  | .server act =>
    match d.machine.heardText K act with
    | none => (machineStep cfg d.machine act).map fun m => { d with machine := m }
    | some text =>
      if text.isSome ∧ d.client.sent[d.taken]? = text then
        (machineStep cfg d.machine act).map fun m => { d with machine := m, taken := d.taken + 1 }
      else none
  | .message advice =>
    if d.client.sessionOpen then
      ((d.machine.wireTo K)[d.read]?).map fun msg =>
        { d with client := finalState (handleResponse advice msg) d.client, read := d.read + 1 }
    else none
  | .close => some { d with client := { d.client with dead := true, sessionOpen := false } }
  | .error => some { d with client := { d.client with dead := true } }

namespace Duplex

variable (d : Duplex)

/-- The messages that the client has processed. -/
def processed (K : Conn) : List Json := (d.machine.wireTo K).take d.read

/-- The texts of the client that the machine has received. -/
def received : List ClientMessage := d.client.sent.take d.taken

/-- The number of commands that the client has sent and whose answer it has not yet processed. -/
def outstanding (K : Conn) : Int := commandsIn d.client.sent - countKind .answer (d.processed K)

end Duplex

/-- The counter of the client is right, between 0 and 10, and there is room for the next text of the client if it is a
command. -/
structure FlowOk (K : Conn) (d : Duplex) : Prop where
  counter : d.client.pendingResponses = d.outstanding K
  nonneg : 0 ≤ d.client.pendingResponses
  window : d.outstanding K ≤ 10
  room : ∀ text, d.client.sent[d.taken]? = some text → text.type = some "cmd" →
    ∀ c cl, LiveClient d.machine.server c cl → d.machine.heard cl.socketFd = some K →
      cl.eventBuffer.count < maxEvents

/-! ### The invariant -/

structure DuplexInv (K : Conn) (d : Duplex) : Prop where
  accounts : d.machine.Accounts K (commandsIn d.received) (loginsIn d.received)
  taken : d.taken ≤ d.client.sent.length
  read : d.read ≤ (d.machine.wireTo K).length
  counter : d.client.pendingResponses = d.outstanding K
  limit : d.client.pendingResponses ≤ 10
  logins : loginsIn d.client.sent ≤ countKind .bienvenue (d.processed K)
  /-- Before it is welcomed, the client has no commands. -/
  fresh : countKind .welcome (d.processed K) = 0 → d.client.commandQueue = [] ∧ commandsIn d.client.sent = 0

/-- One element more of a list. -/
theorem take_next {α : Type} {l : List α} {n : Nat} {a : α} (h : l[n]? = some a) :
    l.take (n + 1) = l.take n ++ [a] := by
  rw [List.take_add_one, h]
  rfl

theorem DuplexInv.flowOk {d : Duplex} (h : DuplexInv K d) : FlowOk K d := by
  have hanswers : countKind .answer (d.processed K) ≤ countKind .answer (d.machine.wireTo K) :=
    (List.take_sublist _ _).countP_le
  have hreceived : commandsIn d.received ≤ commandsIn d.client.sent := (List.take_sublist _ _).countP_le
  have hbound := h.accounts.answers
  have hcounter := h.counter
  have hlimit := h.limit
  have hout : d.outstanding K = commandsIn d.client.sent - countKind .answer (d.processed K) := rfl
  constructor
  case counter => exact hcounter
  case nonneg => omega
  case window => omega
  case room =>
    intro text htext hcmd c cl hc hheard
    -- the events in the buffer are commands received and not answered
    have hroom := h.accounts.buffers c cl hc (Machine.heard_some hheard).2
    -- the next text is a command that is sent and not received
    have hnext : commandsIn d.received + 1 ≤ commandsIn d.client.sent := by
      have hsub : commandsIn (d.client.sent.take (d.taken + 1)) ≤ commandsIn d.client.sent :=
        (List.take_sublist _ _).countP_le
      have hone : commandsIn [text] = 1 := by simp [commandsIn, hcmd]
      rwa [take_next htext, commandsIn_append, hone] at hsub
    have hmax : maxEvents = 10 := rfl
    omega

/-! ### Steps of the machine -/

/-- What is written stays written. -/
theorem machineStep_wire {m m' : Machine} {act : MachineAction} (h : machineStep cfg m act = some m') :
    m.wireTo K <+: m'.wireTo K := by
  refine List.IsPrefix.filterMap _ ?_
  cases machineStep_move h with
  | welcomed | message | misbehaved | playSlot | playServer => exact List.prefix_append _ _
  | _ => exact List.prefix_rfl

/-- A step of the machine, and what it has received after it. -/
theorem duplexStep_server {d d' : Duplex} {act : MachineAction} (hstep : duplexStep cfg K d (.server act) = some d') :
    ∃ m n, machineStep cfg d.machine act = some m ∧ d' = { d with machine := m, taken := n } ∧
      (d.taken ≤ d.client.sent.length → n ≤ d.client.sent.length) ∧
      d.client.sent.take n = d.received ++ d.machine.hears K act := by
  simp only [duplexStep] at hstep
  split at hstep
  · rename_i hnone
    obtain ⟨m, hm, rfl⟩ := Option.map_eq_some_iff.1 hstep
    refine ⟨m, d.taken, hm, rfl, id, ?_⟩
    simp [Machine.hears, hnone, Duplex.received]
  · rename_i text hsome
    split at hstep
    · rename_i hnext
      obtain ⟨m, hm, rfl⟩ := Option.map_eq_some_iff.1 hstep
      obtain ⟨hmsg, hnext⟩ := hnext
      obtain ⟨msg, rfl⟩ := Option.isSome_iff_exists.1 hmsg
      refine ⟨m, d.taken + 1, hm, rfl, fun _ => (List.getElem?_eq_some_iff.1 hnext).1, ?_⟩
      rw [take_next hnext]
      simp [Machine.hears, hsome, Duplex.received]
    · cases hstep

/-- A message that the client processes. -/
theorem duplexStep_message {d d' : Duplex} {advice : Advice} (hstep : duplexStep cfg K d (.message advice) = some d') :
    ∃ msg, d.client.sessionOpen = true ∧ (d.machine.wireTo K)[d.read]? = some msg ∧
      d' = { d with client := finalState (handleResponse advice msg) d.client, read := d.read + 1 } := by
  simp only [duplexStep] at hstep
  split at hstep
  · rename_i hopen
    obtain ⟨msg, hmsg, rfl⟩ := Option.map_eq_some_iff.1 hstep
    exact ⟨msg, hopen, hmsg, rfl⟩
  · cases hstep

/-- What has been processed stays processed when more is written. -/
theorem processed_append {d : Duplex} {m : Machine} {n : Nat} (hread : d.read ≤ (d.machine.wireTo K).length)
    (hwire : d.machine.wireTo K <+: m.wireTo K) :
    Duplex.processed { d with machine := m, taken := n } K = d.processed K := by
  obtain ⟨more, hmore⟩ := hwire
  simp only [Duplex.processed]
  rw [← hmore, List.take_append_of_le_length hread]

theorem DuplexInv.server {d d' : Duplex} {act : MachineAction} (h : DuplexInv K d) (hG : SessionGuard d.machine act)
    (hstep : duplexStep cfg K d (.server act) = some d') : DuplexInv K d' := by
  obtain ⟨m, n, hm, rfl, hn, hreceived⟩ := duplexStep_server hstep
  have hwire := machineStep_wire (K := K) hm
  have hprocessed := processed_append (n := n) h.read hwire
  have haccounts := h.accounts.step hG hm
  rw [← commandsIn_append, ← loginsIn_append, ← hreceived] at haccounts
  constructor
  case accounts => exact haccounts
  case taken => exact hn h.taken
  case read => exact h.read.trans hwire.length_le
  case counter =>
    unfold Duplex.outstanding
    rw [hprocessed]
    exact h.counter
  case limit => exact h.limit
  case logins =>
    rw [hprocessed]
    exact h.logins
  case fresh =>
    rw [hprocessed]
    exact h.fresh

/-! ### Steps of the client -/

section Message

variable {d : Duplex} {advice : Advice} {msg : Json} {c : JavaClient}

theorem processed_next (hmsg : (d.machine.wireTo K)[d.read]? = some msg) :
    Duplex.processed { d with client := c, read := d.read + 1 } K = d.processed K ++ [msg] := take_next hmsg

/-- The invariant after a message, from what the client has become. -/
theorem DuplexInv.processed (h : DuplexInv K d) (hmsg : (d.machine.wireTo K)[d.read]? = some msg)
    (hearlier : d.client.sent <+: c.sent)
    (hlogins : loginsIn c.sent ≤ countKind .bienvenue (d.processed K ++ [msg]))
    (hcounter : c.pendingResponses = commandsIn c.sent - countKind .answer (d.processed K ++ [msg]))
    (hlimit : c.pendingResponses ≤ 10)
    (hfresh : countKind .welcome (d.processed K ++ [msg]) = 0 → c.commandQueue = [] ∧ commandsIn c.sent = 0) :
    DuplexInv K { d with client := c, read := d.read + 1 } := by
  have hreceived : Duplex.received { d with client := c, read := d.read + 1 } = d.received := by
    obtain ⟨more, hmore⟩ := hearlier
    unfold Duplex.received
    rw [← hmore, List.take_append_of_le_length h.taken]
  constructor
  case accounts =>
    rw [hreceived]
    exact h.accounts
  case taken => exact h.taken.trans hearlier.length_le
  case read => exact (List.getElem?_eq_some_iff.1 hmsg).1
  case counter =>
    unfold Duplex.outstanding
    rw [processed_next hmsg]
    exact hcounter
  case limit => exact hlimit
  case logins =>
    rw [processed_next hmsg]
    exact hlogins
  case fresh =>
    rw [processed_next hmsg]
    exact hfresh

/-- An answer answers a command that was sent, and the client is welcomed only once. -/
theorem DuplexInv.due (h : DuplexInv K d) (hmsg : (d.machine.wireTo K)[d.read]? = some msg) :
    countKind .answer (d.processed K ++ [msg]) ≤ commandsIn d.client.sent ∧
      countKind .welcome (d.processed K ++ [msg]) ≤ 1 := by
  have hle : ∀ kind, countKind kind (d.processed K ++ [msg]) ≤ countKind kind (d.machine.wireTo K) := by
    intro kind
    rw [Duplex.processed, ← take_next hmsg]
    exact (List.take_sublist _ _).countP_le
  have hcommands : commandsIn d.received ≤ commandsIn d.client.sent := (List.take_sublist _ _).countP_le
  have hlogins : loginsIn d.received ≤ loginsIn d.client.sent := (List.take_sublist _ _).countP_le
  have hgreeted : countKind .bienvenue (d.processed K) ≤ countKind .bienvenue (d.machine.wireTo K) :=
    (List.take_sublist _ _).countP_le
  constructor
  · have hanswers := (hle .answer).trans h.accounts.answers
    omega
  · have hwelcomes := (hle .welcome).trans h.accounts.welcome
    have hone := h.accounts.bienvenue
    have hlogged := h.logins
    omega

private theorem DuplexInv.books (h : DuplexInv K d) (hopen : d.client.sessionOpen = true) :
    Books d.client.sent (countKind .bienvenue (d.processed K)) (-countKind .answer (d.processed K)) d.client where
  online := hopen
  earlier := List.prefix_rfl
  logins := h.logins
  balance := h.counter
  limit := h.limit

theorem countKind_next (kind : Kind) (msgs : List Json) :
    countKind kind (msgs ++ [msg]) = countKind kind msgs + if msg.kind = kind then 1 else 0 := by
  rw [countKind_append, countKind_singleton]

/-- The books are right after the message. -/
theorem DuplexInv.booked (h : DuplexInv K d) (hmsg : (d.machine.wireTo K)[d.read]? = some msg) {logins : Nat}
    {balance : Int} (hafter : Books d.client.sent logins balance c)
    (hlogins : logins = countKind .bienvenue (d.processed K ++ [msg]))
    (hbalance : balance = -countKind .answer (d.processed K ++ [msg]))
    (hfresh : countKind .welcome (d.processed K ++ [msg]) = 0 → c.commandQueue = [] ∧ commandsIn c.sent = 0) :
    DuplexInv K { d with client := c, read := d.read + 1 } := by
  subst hlogins hbalance
  exact h.processed hmsg hafter.earlier hafter.logins hafter.balance hafter.limit hfresh

/-- The message is no answer, and neither the texts sent nor the counter are changed by it. -/
theorem DuplexInv.unchanged (h : DuplexInv K d) (hmsg : (d.machine.wireTo K)[d.read]? = some msg)
    (hkind : msg.kind ≠ .answer) (hsent : c.sent = d.client.sent)
    (hpending : c.pendingResponses = d.client.pendingResponses)
    (hfresh : countKind .welcome (d.processed K ++ [msg]) = 0 → c.commandQueue = [] ∧ commandsIn c.sent = 0) :
    DuplexInv K { d with client := c, read := d.read + 1 } := by
  have hlogged := h.logins
  have hlimit := h.limit
  have hcounter := h.counter
  unfold Duplex.outstanding at hcounter
  refine h.processed hmsg (hsent ▸ List.prefix_rfl) ?_ ?_ (hpending ▸ hlimit) hfresh
  · rw [hsent, countKind_next]
    omega
  · rw [hpending, hsent, countKind_next, if_neg hkind]
    exact hcounter

/-- A message that is not miscounted keeps the invariant. -/
theorem DuplexInv.counted (h : DuplexInv K d) (hopen : d.client.sessionOpen = true)
    (hmsg : (d.machine.wireTo K)[d.read]? = some msg) (hcount : miscounts d.client msg = false) :
    DuplexInv K { d with client := finalState (handleResponse advice msg) d.client, read := d.read + 1 } := by
  have hbooks := h.books hopen
  have hcounter := h.counter
  unfold Duplex.outstanding at hcounter
  obtain ⟨hanswers, hwelcomes⟩ := h.due hmsg
  rw [countKind_next] at hanswers hwelcomes
  -- before the welcome the client has no commands
  have hfresh : countKind .welcome (d.processed K ++ [msg]) = 0 →
      d.client.commandQueue = [] ∧ commandsIn d.client.sent = 0 := by
    intro hnone
    rw [countKind_next] at hnone
    exact h.fresh (by omega)
  have hidle : (msg.kind = .bienvenue ∨ msg.kind = .error ∨ msg.kind = .remark) →
      countKind .welcome (d.processed K ++ [msg]) = 0 →
        (finalState (handleResponse advice msg) d.client).commandQueue = [] ∧
          commandsIn (finalState (handleResponse advice msg) d.client).sent = 0 :=
    fun hkind hnone => handleResponse_idle hkind 0 _ (hfresh hnone)
  cases hkind : msg.kind with
  | bienvenue =>
    refine h.booked hmsg (hbooks.bienvenue hkind) ?_ ?_ (hidle (Or.inl hkind))
    · simp [countKind_singleton, hkind]
    · simp [countKind_singleton, hkind]
  | welcome =>
    rw [hkind, if_pos rfl] at hwelcomes
    obtain ⟨-, hnone⟩ := h.fresh (by omega)
    -- the first welcome comes before any command, so the counter allows one
    refine h.booked hmsg (hbooks.welcome hkind (by omega)) ?_ ?_ fun hzero => ?_
    · simp [countKind_singleton, hkind]
    · simp [countKind_singleton, hkind]
    · simp [countKind_singleton, hkind] at hzero
  | answer =>
    refine h.booked hmsg (hbooks.response (Or.inl hkind)) ?_ ?_ fun hzero => ?_
    · simp [countKind_singleton, hkind]
    · simp only [countKind_next, hkind, if_true]
      omega
    · -- nothing is answered before the welcome
      rw [hkind, if_pos rfl] at hanswers
      have hnone := (hfresh hzero).2
      omega
  | notice => simp [miscounts, hkind] at hcount
  | farewell =>
    obtain ⟨hpending, hsent⟩ := handleResponse_farewell advice d.client hkind
    have hquota : JavaClient.quota { d.client with pendingResponses := d.client.pendingResponses - 1 } = 1 := by
      simpa [miscounts, hkind] using hcount
    refine h.unchanged hmsg (by simp [hkind]) hsent ?_ fun hnone => ?_
    · rw [hpending, hquota]
      simp
    · -- without commands the loop could not make up for the answer
      simp [JavaClient.quota, (hfresh hnone).1] at hquota
  | error =>
    obtain ⟨hpending, hsent⟩ := handleResponse_error advice d.client hkind
    have hquota : d.client.quota = 0 := by simpa [miscounts, hkind] using hcount
    refine h.unchanged hmsg (by simp [hkind]) hsent ?_ (hidle (Or.inr (Or.inl hkind)))
    rw [hpending, hquota]
    simp
  | remark =>
    refine h.booked hmsg (hbooks.remark hkind) ?_ ?_ (hidle (Or.inr (Or.inr hkind)))
    · simp [countKind_singleton, hkind]
    · simp [countKind_singleton, hkind]
  | alien =>
    have hmem : msg ∈ d.machine.wireTo K := List.mem_of_getElem? hmsg
    exact absurd hkind (h.accounts.known msg hmem)

/-- After a message that is miscounted, the counter is wrong. -/
private theorem DuplexInv.miscounted (h : DuplexInv K d) (hopen : d.client.sessionOpen = true)
    (hmsg : (d.machine.wireTo K)[d.read]? = some msg) (hcount : miscounts d.client msg = true) :
    ¬ FlowOk K { d with client := finalState (handleResponse advice msg) d.client, read := d.read + 1 } := by
  have hcounter := h.counter
  unfold Duplex.outstanding at hcounter
  intro hok
  have hafter := hok.counter
  unfold Duplex.outstanding at hafter
  rw [processed_next hmsg, countKind_next] at hafter
  dsimp only at hafter
  cases hkind : msg.kind with
  | notice =>
    have hbooks : Books _ _ _ (finalState (handleResponse advice msg) d.client) :=
      (h.books hopen).response (Or.inr hkind)
    have hbalance := hbooks.balance
    rw [hkind, if_neg (by decide)] at hafter
    omega
  | farewell =>
    obtain ⟨hpending, hsent⟩ := handleResponse_farewell advice d.client hkind
    rw [hkind, if_neg (by decide), hpending, hsent] at hafter
    simp only [miscounts, hkind, decide_eq_true_eq] at hcount
    omega
  | error =>
    obtain ⟨hpending, hsent⟩ := handleResponse_error advice d.client hkind
    rw [hkind, if_neg (by decide), hpending, hsent] at hafter
    simp only [miscounts, hkind, decide_eq_true_eq] at hcount
    omega
  | _ => simp [miscounts, hkind] at hcount

end Message

/-! ### Runs -/

/-- What a step of the two guards against. -/
def DuplexGuard (d : Duplex) : DuplexAction → Prop
  | .server act => SessionGuard d.machine act
  | _ => True

/-- No message that the step processes is miscounted. -/
def Counted (K : Conn) (d : Duplex) : DuplexAction → Prop
  | .message _ => ∀ msg, (d.machine.wireTo K)[d.read]? = some msg → miscounts d.client msg = false
  | _ => True

theorem DuplexInv.step {d d' : Duplex} {act : DuplexAction} (h : DuplexInv K d) (hG : DuplexGuard d act)
    (hstep : duplexStep cfg K d act = some d') :
    (Counted K d act → DuplexInv K d') ∧ (FlowOk K d' → Counted K d act) := by
  cases act with
  | server act => exact ⟨fun _ => h.server hG hstep, fun _ => trivial⟩
  | message advice =>
    obtain ⟨msg, hopen, hmsg, rfl⟩ := duplexStep_message hstep
    refine ⟨fun hcount => h.counted hopen hmsg (hcount msg hmsg), fun hok msg' hmsg' => ?_⟩
    obtain rfl := Option.some.inj (hmsg.symm.trans hmsg')
    by_contra hcount
    exact h.miscounted hopen hmsg (by simpa using hcount) hok
  | close =>
    cases hstep
    exact ⟨fun _ => { h with }, fun _ => trivial⟩
  | error =>
    cases hstep
    exact ⟨fun _ => { h with }, fun _ => trivial⟩

/-- The machine and the client before they are connected. -/
def duplexInit (cfg : Config) (width height : Nat) (teams : List String) (nbClients : Nat)
    (counts : Nat → InventoryType → Nat) (teamName : String) : Duplex where
  machine := machineInit cfg width height teams nbClients counts
  client := { teamName := teamName }

theorem duplexInv_init (width height : Nat) (teams : List String) (nbClients : Nat)
    (counts : Nat → InventoryType → Nat) (teamName : String) :
    DuplexInv K (duplexInit cfg width height teams nbClients counts teamName) where
  accounts := accounts_init cfg width height teams nbClients counts K
  taken := Nat.le_refl _
  read := Nat.zero_le _
  counter := rfl
  limit := (by decide : (0 : Int) ≤ 10)
  logins := Nat.zero_le _
  fresh := fun _ => ⟨rfl, rfl⟩

/-- In every run in which no two clients of the server come to share a descriptor, the flow control holds after every
step if and only if the client processes no message that it miscounts. -/
theorem flow_control_iff (cfg : Config) (width height : Nat) (teams : List String) (nbClients : Nat)
    (counts : Nat → InventoryType → Nat) (teamName : String) (K : Conn) (as : List DuplexAction)
    (hG : Guarded (duplexStep cfg K) DuplexGuard (duplexInit cfg width height teams nbClients counts teamName) as) :
    AllSteps (duplexStep cfg K) (fun _ _ d => FlowOk K d)
        (duplexInit cfg width height teams nbClients counts teamName) as ↔
      Guarded (duplexStep cfg K) (Counted K) (duplexInit cfg width height teams nbClients counts teamName) as := by
  -- along a run the two agree as long as nothing was miscounted, and the first miscount breaks both
  refine hG.congr (I := DuplexInv K) ?_ ?_ (duplexInv_init _ _ _ _ _ _)
  · intro d act d' hstep hG h
    obtain ⟨hcounted, hok⟩ := h.step hG hstep
    exact ⟨hok, fun hcount => (hcounted hcount).flowOk⟩
  · intro d act d' hstep hG h hok
    obtain ⟨hcounted, hcount⟩ := h.step hG hstep
    exact hcounted (hcount hok)

/-- A test for `DuplexGuard`. -/
def duplexTest (d : Duplex) : DuplexAction → Bool
  | .server act => sessionTest d.machine act
  | _ => true

theorem duplexGuard_of_test (d : Duplex) (act : DuplexAction) (h : duplexTest d act) : DuplexGuard d act := by
  cases act with
  | server act => exact sessionGuard_of_test d.machine act h
  | _ => exact trivial

/-- A test for `Counted`. -/
def countedTest (K : Conn) (d : Duplex) : DuplexAction → Bool
  | .message _ => ((d.machine.wireTo K)[d.read]?).all fun msg => !miscounts d.client msg
  | _ => true

theorem counted_of_test (d : Duplex) (act : DuplexAction) (h : countedTest K d act) : Counted K d act := by
  cases act with
  | message advice =>
    intro msg hmsg
    simpa [countedTest, hmsg] using h
  | _ => exact trivial

def shippedDuplex : Duplex := duplexInit shippedConfig 1 1 ["red"] 2 (fun _ _ => 0) "red"

/-- A pass of `main_loop` at the time `t` in which no descriptor is readable. -/
def idlePass (t : Nat) : List MachineAction :=
  [.lookupEnd, .select [], .tick t, .playSlot {}, .playSlot {}, .playServer {}]

/-- The client connects and logs in. -/
def clientEnters : List DuplexAction :=
  (scanPass [3] [.accept 4] 0 ++ handshakePass).map .server ++ [.message none] ++
    (scanPass [4] [.receive loginMessage ⟨0, 0, 0⟩] 0).map .server ++ [.message none]

/-- The client looks around, and queues two commands when it is answered. -/
def clientLooks : List DuplexAction :=
  clientEnters ++
    (scanPass [4] [.receive (.text (some { type := "cmd", cmd := "voir" })) ⟨0, 0, 0⟩] 0 ++ idlePass 7 ++
      idlePass 100).map .server ++
    [.message (some [{ type := .avance }, { type := .avance }])]

theorem flow_control_iff_looks : ∃ d, run (duplexStep shippedConfig 1) shippedDuplex clientLooks = some d ∧
    d.client.pendingResponses = 2 ∧ FlowOk 1 d := by
  have hrun : (run (duplexStep shippedConfig 1) shippedDuplex clientLooks).map
      (fun d => d.client.pendingResponses) = some 2 := by decide +kernel
  have hguard : testGuard (duplexStep shippedConfig 1) duplexTest shippedDuplex clientLooks := by decide +kernel
  have hcounted : testGuard (duplexStep shippedConfig 1) (countedTest 1) shippedDuplex clientLooks := by
    decide +kernel
  obtain ⟨d, hd, hpending⟩ := Option.map_eq_some_iff.1 hrun
  have hall := (flow_control_iff shippedConfig 1 1 ["red"] 2 (fun _ _ => 0) "red" 1 clientLooks
    (.of_test duplexGuard_of_test hguard)).2 (.of_test counted_of_test hcounted)
  exact ⟨d, hd, hpending, hall.at_end hd (duplexInv_init _ _ _ _ _ _).flowOk⟩

/-- Another player enters, and broadcasts twice before the first command of the client is received. -/
def othersShout : List DuplexAction :=
  let shout : MachineAction :=
    .receive (.text (some { type := "cmd", cmd := "broadcast", arg := "hello" })) ⟨0, 0, 0⟩
  clientEnters ++
    (scanPass [3] [.accept 5] 0 ++ handshakePass ++ scanPass [5] [.receive loginMessage ⟨0, 0, 0⟩] 0 ++
      scanPass [5] [shout] 0 ++ scanPass [5] [shout] 0 ++ idlePass 7 ++ idlePass 100 ++ idlePass 200).map .server ++
    [.message none, .message none]

/-- The client waits for one answer, and its counter is negative. -/
theorem broadcasts_miscounted : ∃ d, run (duplexStep shippedConfig 1) shippedDuplex othersShout = some d ∧
    Guarded (duplexStep shippedConfig 1) DuplexGuard shippedDuplex othersShout ∧
    d.client.pendingResponses = -1 ∧ d.outstanding 1 = 1 ∧ ¬ FlowOk 1 d := by
  have hrun : (run (duplexStep shippedConfig 1) shippedDuplex othersShout).map
      (fun d => (d.client.pendingResponses, d.outstanding 1)) = some (-1, 1) := by decide +kernel
  have hguard : testGuard (duplexStep shippedConfig 1) duplexTest shippedDuplex othersShout := by decide +kernel
  obtain ⟨d, hd, he⟩ := Option.map_eq_some_iff.1 hrun
  obtain ⟨hpending, hout⟩ := Prod.mk.inj he
  refine ⟨d, hd, .of_test duplexGuard_of_test hguard, hpending, hout, fun hok => ?_⟩
  have hnonneg := hok.nonneg
  omega

end Zappy

import Zappy.Replies

/-!
# The accounts of a connection

What the machine writes to one connection: at most one `bienvenue`, no more welcomes than logins received, and no more
answers than commands received, where the events that are still queued count as answers to come (`Machine.Accounts`).
-/

namespace Zappy

open Run

variable {cfg : Config} {K : Conn} {m m' : Machine} {act : MachineAction} {s s' : Server} {fd : Fd}
  {text : Option ClientMessage}

/-! ### The wire of a connection -/

/-- The messages in `out` whose descriptor has a session of `K`. -/
def toConn (session : Fd → Option Conn) (K : Conn) (out : List (Fd × Json)) : List Json :=
  out.filterMap fun e => if session e.1 = some K then some e.2 else none

/-- What was written to the connection `K`. -/
def Machine.wireTo (m : Machine) (K : Conn) : List Json :=
  m.wire.filterMap fun e => if e.1 = K then some e.2 else none

theorem wireTo_deliver (m : Machine) (K : Conn) :
    m.deliver.wireTo K = m.wireTo K ++ toConn m.session K m.server.outbox := by
  unfold Machine.wireTo Machine.deliver toConn
  rw [List.filterMap_append, List.filterMap_filterMap]
  congr 2
  funext e
  cases m.session e.1 with
  | none => rfl
  | some k =>
    by_cases hk : k = K
    · simp [hk]
    · simp [hk]

private theorem toConn_sublist (session : Fd → Option Conn) (K : Conn) (out : List (Fd × Json)) :
    (toConn session K out).Sublist (out.map Prod.snd) := by
  induction out with
  | nil => exact List.Sublist.refl _
  | cons e out ih =>
    unfold toConn at *
    rw [List.filterMap_cons, List.map_cons]
    split
    · rename_i hnone
      exact ih.cons _
    · rename_i msg hsome
      split at hsome
      · cases hsome
        exact ih.cons_cons _
      · cases hsome

theorem mem_toConn {session : Fd → Option Conn} {out : List (Fd × Json)} {msg : Json}
    (h : msg ∈ toConn session K out) : ∃ e ∈ out, session e.1 = some K ∧ e.2 = msg := by
  obtain ⟨e, he, hmsg⟩ := List.mem_filterMap.1 h
  split at hmsg
  · rename_i hsession
    exact ⟨e, he, hsession, Option.some.inj hmsg⟩
  · cases hmsg

private theorem countKind_toConn_le (k : Kind) (session : Fd → Option Conn) (out : List (Fd × Json)) :
    countKind k (toConn session K out) ≤ countKind k (out.map Prod.snd) :=
  (toConn_sublist session K out).countP_le

private theorem countKind_eq_zero {k : Kind} {msgs : List Json} (h : ∀ msg ∈ msgs, msg.kind ≠ k) :
    countKind k msgs = 0 := by
  unfold countKind
  rw [List.countP_eq_zero]
  intro msg hmsg
  simpa using h msg hmsg

/-- New messages: how many answers and welcomes there are at most. -/
structure Gain (new : List Json) (answers welcomes : Nat) : Prop where
  known : ∀ msg ∈ new, msg.kind ≠ .alien ∧ msg.kind ≠ .bienvenue
  answers : countKind .answer new ≤ answers
  welcomes : countKind .welcome new ≤ welcomes

theorem Gain.nil : Gain [] 0 0 := ⟨fun _ h => absurd h List.not_mem_nil, Nat.le_refl _, Nat.le_refl _⟩

theorem Sends.gain {n : Nat} (h : Sends fd n s s') (hs : s.outbox = []) (session : Fd → Option Conn) :
    Gain (toConn session K s'.outbox) (if session fd = some K then n else 0) 0 := by
  obtain ⟨out, hout, hn, hkinds⟩ := h
  rw [hout, hs, List.nil_append]
  have hall : ∀ msg ∈ toConn session K out,
      msg.kind = .notice ∨ msg.kind = .farewell ∨ (msg.kind = .answer ∧ session fd = some K) := by
    intro msg hmsg
    obtain ⟨e, he, hsession, rfl⟩ := mem_toConn hmsg
    rcases hkinds e he with hkind | hkind | ⟨hkind, hfd⟩
    · exact Or.inl hkind
    · exact Or.inr (Or.inl hkind)
    · rw [hfd] at hsession
      exact Or.inr (Or.inr ⟨hkind, hsession⟩)
  refine ⟨?_, ?_, ?_⟩
  · intro msg hmsg
    rcases hall msg hmsg with hkind | hkind | ⟨hkind, -⟩ <;> rw [hkind] <;> exact ⟨by decide, by decide⟩
  · split
    · exact (countKind_toConn_le _ _ _).trans hn
    · rename_i hother
      refine Nat.le_of_eq (countKind_eq_zero fun msg hmsg => ?_)
      rcases hall msg hmsg with hkind | hkind | ⟨-, hsession⟩
      · rw [hkind]
        decide
      · rw [hkind]
        decide
      · exact absurd hsession hother
  · refine Nat.le_of_eq (countKind_eq_zero fun msg hmsg => ?_)
    rcases hall msg hmsg with hkind | hkind | ⟨hkind, -⟩ <;> rw [hkind] <;> decide

theorem Receipt.gain (h : Receipt fd text s s') (hs : s.outbox = []) (session : Fd → Option Conn) :
    Gain (toConn session K s'.outbox) 0 (if session fd = some K then loginsIn text.toList else 0) := by
  obtain ⟨out, hout, hn, hkinds⟩ := h.sends
  rw [hout, hs, List.nil_append]
  have hall : ∀ msg ∈ toConn session K out, session fd = some K ∧
      (msg.kind = .welcome ∨ msg.kind = .error ∨ msg.kind = .remark) := by
    intro msg hmsg
    obtain ⟨e, he, hsession, rfl⟩ := mem_toConn hmsg
    obtain ⟨hfd, hkind⟩ := hkinds e he
    rw [hfd] at hsession
    exact ⟨hsession, hkind⟩
  refine ⟨?_, ?_, ?_⟩
  · intro msg hmsg
    obtain ⟨-, hkind | hkind | hkind⟩ := hall msg hmsg <;> rw [hkind] <;> exact ⟨by decide, by decide⟩
  · refine Nat.le_of_eq (countKind_eq_zero fun msg hmsg => ?_)
    obtain ⟨-, hkind | hkind | hkind⟩ := hall msg hmsg <;> rw [hkind] <;> decide
  · split
    · exact (countKind_toConn_le _ _ _).trans hn
    · rename_i hother
      exact Nat.le_of_eq (countKind_eq_zero fun msg hmsg => absurd (hall msg hmsg).1 hother)

/-! ### Accounts -/

/-- The text that a step receives on the connection `K`, if any. -/
def Machine.heardText (m : Machine) (K : Conn) : MachineAction → Option (Option ClientMessage)
  | .receive (.text text) _ =>
    match m.phase with
    | .scan (fd :: _) => if m.heard fd = some K then some text else none
    | _ => none
  | _ => none

/-- What a step receives on the connection `K`. -/
def Machine.hears (m : Machine) (K : Conn) (act : MachineAction) : List ClientMessage :=
  (m.heardText K act).join.toList

/-- The accounts of `K`, after `cmds` commands and `logins` logins received. -/
structure Machine.Accounts (m : Machine) (K : Conn) (cmds logins : Nat) : Prop where
  sessions : m.Sessions
  outbox : m.server.outbox = []
  owners : ∀ fd fd' k, m.owner fd = some k → m.owner fd' = some k → fd = fd'
  future : ∀ e ∈ m.wire, e.1 < m.nextConn
  known : ∀ msg ∈ m.wireTo K, msg.kind ≠ .alien
  bienvenue : countKind .bienvenue (m.wireTo K) ≤ 1
  expected : ∀ fd ∈ m.pending, m.owner fd = some K → countKind .bienvenue (m.wireTo K) = 0
  welcome : countKind .welcome (m.wireTo K) ≤ logins
  answers : countKind .answer (m.wireTo K) ≤ cmds
  buffers : ∀ c cl, LiveClient m.server c cl → m.session cl.socketFd = some K →
    countKind .answer (m.wireTo K) + cl.eventBuffer.count ≤ cmds

/-- A session on the descriptor of a client is not new. -/
theorem MachineMove.session_back (h : m.Sessions) (hmove : MachineMove cfg m act m') {c : Addr} {cl : Client}
    (hc : LiveClient m.server c cl) {k : Conn} (hk : m'.session cl.socketFd = some k) :
    m.session cl.socketFd = some k := by
  have hfinished : ∀ {fd k' rest}, m.phase = .lookup → m.finished = (fd, k') :: rest → cl.socketFd ≠ fd := by
    intro fd k' rest hphase hq he
    rcases h.status c cl hc with hatt | hleave
    · refine hatt.idle (List.mem_append_right _ (List.mem_map.2 ⟨(fd, k'), ?_, he.symm⟩))
      rw [hq]
      exact List.mem_cons_self
    · have hahead := hleave.ahead
      rw [Machine.Ahead, hphase] at hahead
      exact hahead
  cases hmove with
  | welcomed hphase hq howner => exact (Function.update_of_ne (hfinished hphase hq) _ _).symm.trans hk
  | refused hphase hq => exact (Function.update_of_ne (hfinished hphase hq) _ _).symm.trans hk
  | hangUp | misbehaved | remove => exact update_none_some hk
  | _ => exact hk

/-- A step that accepts no connection and greets none, and writes `new` to `K`. -/
theorem Machine.Accounts.extend {cmds logins cmds' logins' : Nat} (h : m.Accounts K cmds logins) {new : List Json}
    {answers welcomes : Nat} (hgain : Gain new answers welcomes) (hs : m'.Sessions)
    (hout : m'.server.outbox = []) (howner : ∀ fd k, m'.owner fd = some k → m.owner fd = some k)
    (hpending : ∀ fd ∈ m'.pending, fd ∈ m.pending) (hfuture : ∀ e ∈ m'.wire, e.1 < m'.nextConn)
    (hwire : m'.wireTo K = m.wireTo K ++ new)
    (hlogins : logins + welcomes ≤ logins') (hanswers : countKind .answer (m.wireTo K) + answers ≤ cmds')
    (hbuffers : ∀ c cl, LiveClient m'.server c cl → m'.session cl.socketFd = some K →
      countKind .answer (m.wireTo K) + answers + cl.eventBuffer.count ≤ cmds') :
    m'.Accounts K cmds' logins' := by
  have hnone : countKind .bienvenue new = 0 := countKind_eq_zero fun msg hmsg => (hgain.known msg hmsg).2
  have hle := hgain.answers
  constructor
  case sessions => exact hs
  case outbox => exact hout
  case owners => exact fun fd fd' k hk hk' => h.owners fd fd' k (howner fd k hk) (howner fd' k hk')
  case future => exact hfuture
  case known =>
    intro msg hmsg
    rw [hwire] at hmsg
    rcases List.mem_append.1 hmsg with hmsg | hmsg
    · exact h.known msg hmsg
    · exact (hgain.known msg hmsg).1
  case bienvenue =>
    rw [hwire, countKind_append, hnone]
    exact h.bienvenue
  case expected =>
    intro fd hfd hk
    rw [hwire, countKind_append, hnone, Nat.add_zero]
    exact h.expected fd (hpending fd hfd) (howner fd K hk)
  case welcome =>
    rw [hwire, countKind_append]
    exact (Nat.add_le_add h.welcome hgain.welcomes).trans hlogins
  case answers =>
    rw [hwire, countKind_append]
    omega
  case buffers =>
    intro c cl hc hk
    have hroom := hbuffers c cl hc hk
    rw [hwire, countKind_append]
    omega

/-- A step that writes nothing and leaves the clients alone. -/
theorem Machine.Accounts.still {cmds logins : Nat} (h : m.Accounts K cmds logins) (hs : m'.Sessions)
    (hmove : MachineMove cfg m act m')
    (hserver : m'.server.clients = m.server.clients ∧ m'.server.clientHeap = m.server.clientHeap ∧
      m'.server.outbox = m.server.outbox)
    (hact : ∀ fd, act ≠ .accept fd) (hwire : m'.wire = m.wire) (hnext : m'.nextConn = m.nextConn) :
    m'.Accounts K cmds logins := by
  obtain ⟨hclients, hheap, hout⟩ := hserver
  have howner : ∀ fd k, m'.owner fd = some k → m.owner fd = some k := by
    intro fd k hk
    exact (hmove.owner hk).resolve_right fun haccept => hact fd haccept.1
  have hpending : ∀ fd ∈ m'.pending, fd ∈ m.pending := by
    intro fd hfd
    exact (hmove.pending hfd).resolve_right fun haccept => hact fd haccept.1
  have hlive : ∀ c cl, LiveClient m'.server c cl → LiveClient m.server c cl := fun c cl hc =>
    ⟨by rw [Server.live, ← hclients]; exact hc.live, by rw [← hheap]; exact hc.heap⟩
  have hwireTo : m'.wireTo K = m.wireTo K ++ [] := by rw [Machine.wireTo, hwire, List.append_nil]; rfl
  exact h.extend .nil hs (hout.trans h.outbox) howner hpending (by rw [hwire, hnext]; exact h.future) hwireTo
    (Nat.le_refl _) h.answers fun c cl hc hk =>
      h.buffers c cl (hlive c cl hc) (hmove.session_back h.sessions (hlive c cl hc) hk)

theorem Machine.Accounts.mono {cmds logins cmds' logins' : Nat} (h : m.Accounts K cmds logins) (hcmds : cmds ≤ cmds')
    (hlogins : logins ≤ logins') : m.Accounts K cmds' logins' :=
  { h with
    welcome := h.welcome.trans hlogins
    answers := h.answers.trans hcmds
    buffers := fun c cl hc hk => (h.buffers c cl hc hk).trans hcmds }

theorem gameKillPlayer_same (s : Server) (fd : Fd) : (gameKillPlayer s fd).clients = s.clients ∧
    (gameKillPlayer s fd).clientHeap = s.clientHeap ∧ (gameKillPlayer s fd).outbox = s.outbox := by
  unfold gameKillPlayer
  split
  · exact ⟨rfl, rfl, rfl⟩
  · split
    · exact ⟨rfl, rfl, rfl⟩
    · split <;> exact ⟨rfl, rfl, rfl⟩

/-- The wire after a delivery holds no connection from the future. -/
private theorem deliver_future (hsession : ∀ fd k, m.session fd = some k → k < m.nextConn)
    (h : ∀ e ∈ m.wire, e.1 < m.nextConn) : ∀ e ∈ m.deliver.wire, e.1 < m.nextConn := by
  intro e he
  rcases List.mem_append.1 he with he | he
  · exact h e he
  · obtain ⟨e', -, he'⟩ := List.mem_filterMap.1 he
    obtain ⟨k, hk, rfl⟩ := Option.map_eq_some_iff.1 he'
    exact hsession _ _ hk

/-- The client whose events a turn serves is the one on the descriptor with the session of `K`. -/
theorem Machine.Accounts.same_client {cmds logins : Nat} (h : m.Accounts K cmds logins) {c d : Addr} {cl dl : Client}
    (hc : LiveClient m.server c cl) (hd : LiveClient m.server d dl) (hcK : m.session cl.socketFd = some K)
    (hdK : m.session dl.socketFd = some K) : c = d := by
  have hown : ∀ {e el}, LiveClient m.server e el → m.session el.socketFd = some K → m.owner el.socketFd = some K := by
    intro e el he heK
    rcases h.sessions.status e el he with hatt | hleave
    · rw [hatt.owner, ← hatt.session, heK]
    · rw [hleave.session] at heK
      cases heK
  exact h.sessions.game.unique c d cl dl hc hd (h.owners _ _ K (hown hc hcK) (hown hd hdK))

theorem Machine.Accounts.playSlot {cmds logins : Nat} (h : m.Accounts K cmds logins) {chance : Chance} {i : Nat}
    {s₁ : Server} (hs : ({ m with server := s₁, phase := .play (i + 1) } : Machine).deliver.Sessions)
    (hplay : gamePlaySlot cfg chance m.server i = some s₁) :
    ({ m with server := s₁, phase := .play (i + 1) } : Machine).deliver.Accounts K cmds logins := by
  have hwire := wireTo_deliver { m with server := s₁, phase := .play (i + 1) } K
  have hfuture := deliver_future (m := { m with server := s₁, phase := .play (i + 1) })
    h.sessions.tables.sessionBound h.future
  rcases gamePlaySlot_turn h.sessions.game hplay with ⟨fd, hsends, hkeep⟩ | ⟨hc, hsends, hident, hle, hkeep⟩
  · have hgain := hsends.gain (K := K) h.outbox m.session
    rw [ite_self] at hgain
    exact h.extend hgain hs rfl (fun _ _ hk => hk) (fun _ hfd => hfd) hfuture hwire
      (Nat.le_refl _) h.answers fun c cl hc hk => h.buffers c cl (hkeep c cl ⟨hc.live, hc.heap⟩) hk
  · rename_i c cl cl' n
    have hgain := hsends.gain (K := K) h.outbox m.session
    have hfd : cl'.socketFd = cl.socketFd := (Client.identity_eq hident).1
    -- the answers of the turn come out of the buffer of its client
    refine h.extend hgain hs rfl (fun _ _ hk => hk) (fun _ hfd => hfd) hfuture hwire (Nat.le_refl _) ?_ ?_
    · split
      · rename_i hK
        have hroom := h.buffers c cl hc hK
        omega
      · exact h.answers
    · intro d dl hd hk
      rcases hkeep d dl ⟨hd.live, hd.heap⟩ with ⟨-, rfl⟩ | ⟨hdc, hd₀⟩
      · have hK : m.session cl.socketFd = some K := hfd ▸ hk
        have hroom := h.buffers c cl hc hK
        rw [if_pos hK]
        omega
      · have hother : ¬ m.session cl.socketFd = some K := fun hK => hdc (h.same_client hd₀ hc hk hK)
        have hroom := h.buffers d dl hd₀ hk
        rw [if_neg hother]
        exact hroom

/-- A message that is handled, after which the connection is kept or closed. -/
theorem Machine.Accounts.receive {cmds logins : Nat} (h : m.Accounts K cmds logins) {rest : List Fd}
    {draw : StartDraw} {k : Conn} {ret : Ret} {s₁ : Server} (hphase : m.phase = .scan (fd :: rest))
    (hheard : m.heard fd = some k) (hmsg : handleClientMessage cfg m.server k fd draw text = some (ret, s₁))
    (hs : m'.Sessions) (hout : m'.server.outbox = [])
    (hserver : m'.server.clients = s₁.clients ∧ m'.server.clientHeap = s₁.clientHeap)
    (howner : ∀ fd k, m'.owner fd = some k → m.owner fd = some k)
    (hsession : ∀ fd k, m'.session fd = some k → m.session fd = some k) (hpending : m'.pending = m.pending)
    (hwire : m'.wire = ({ m with server := s₁ } : Machine).deliver.wire) (hnext : m'.nextConn = m.nextConn) :
    m'.Accounts K (cmds + commandsIn (m.hears K (.receive (.text text) draw)))
      (logins + loginsIn (m.hears K (.receive (.text text) draw))) := by
  have hreceipt := handleClientMessage_receipt h.sessions.game.wf hmsg
  obtain ⟨-, hfd⟩ := Machine.heard_some hheard
  have hhears : m.session fd = some K → m.hears K (.receive (.text text) draw) = text.toList := by
    intro hK
    have hk : m.heard fd = some K := by rw [hheard, ← hfd, hK]
    simp [Machine.hears, Machine.heardText, hphase, hk]
  have hwireTo : m'.wireTo K = m.wireTo K ++ toConn m.session K s₁.outbox := by
    have hdelivered := wireTo_deliver { m with server := s₁ } K
    unfold Machine.wireTo at *
    rw [hwire]
    exact hdelivered
  refine h.extend (hreceipt.gain h.outbox m.session) hs hout howner (fun fd' hfd' => hpending ▸ hfd') ?_ hwireTo
    ?_ ?_ ?_
  · rw [hwire, hnext]
    exact deliver_future (m := { m with server := s₁ }) h.sessions.tables.sessionBound h.future
  · split
    · rename_i hK
      rw [hhears hK]
    · exact Nat.le_add_right _ _
  · exact h.answers.trans (Nat.le_add_right _ _)
  · intro d dl hd hk
    have hd₁ : LiveClient s₁ d dl :=
      ⟨by rw [Server.live, ← hserver.1]; exact hd.live, by rw [← hserver.2]; exact hd.heap⟩
    have hkd := hsession _ _ hk
    rcases hreceipt.clients d dl hd₁ with hzero | ⟨dl₀, hd₀, hident, hle⟩
    · have hanswers := h.answers
      omega
    · have hfd₀ : dl.socketFd = dl₀.socketFd := (Client.identity_eq hident).1
      have hroom := h.buffers d dl₀ hd₀ (hfd₀ ▸ hkd)
      -- only the client on the descriptor gets the event of the command
      by_cases hdfd : dl.socketFd = fd
      · rw [hhears (hdfd ▸ hkd)]
        rw [if_pos hdfd] at hle
        omega
      · rw [if_neg hdfd] at hle
        omega

/-- The greeting goes to a connection that has got none. -/
private theorem Machine.Accounts.greet {cmds logins : Nat} (h : m.Accounts K cmds logins) {fd : Fd} {k : Conn}
    {rest : List (Fd × Conn)} {greeting : Json} (hs : m'.Sessions) (hmove : MachineMove cfg m act m')
    (hq : m.finished = (fd, k) :: rest) (hkowner : m.owner fd = some k) (hkind : greeting.kind = .bienvenue)
    (hserver : m'.server.clients = m.server.clients ∧ m'.server.clientHeap = m.server.clientHeap ∧
      m'.server.outbox = m.server.outbox)
    (howner : m'.owner = m.owner) (hpending : m'.pending = m.handshakes ++ rest.map Prod.fst)
    (hwire : m'.wire = m.wire ++ [(k, greeting)]) (hnext : m'.nextConn = m.nextConn) :
    m'.Accounts K cmds logins := by
  obtain ⟨hclients, hheap, hout⟩ := hserver
  have hperm : m.pending.Perm (fd :: m'.pending) := by
    rw [hpending, Machine.pending, hq]
    exact List.perm_middle
  obtain ⟨hnew, -⟩ := List.nodup_cons.1 (hperm.nodup_iff.1 h.sessions.tables.nodup)
  have hexpected : m.owner fd = some K → countKind .bienvenue (m.wireTo K) = 0 :=
    h.expected fd (hperm.mem_iff.2 List.mem_cons_self)
  have hwireTo : m'.wireTo K = m.wireTo K ++ if k = K then [greeting] else [] := by
    unfold Machine.wireTo
    rw [hwire, List.filterMap_append]
    by_cases hk : k = K
    · simp [hk]
    · simp [hk]
  have hcount : ∀ kind, countKind kind (m'.wireTo K) =
      countKind kind (m.wireTo K) + if k = K ∧ kind = .bienvenue then 1 else 0 := by
    intro kind
    rw [hwireTo, countKind_append]
    by_cases hk : k = K
    · rw [if_pos hk, countKind_singleton, hkind]
      simp [hk, eq_comm]
    · simp [hk]
  have hanswers : countKind .answer (m'.wireTo K) = countKind .answer (m.wireTo K) := by simp [hcount]
  constructor
  case sessions => exact hs
  case outbox => exact hout.trans h.outbox
  case owners => exact howner ▸ h.owners
  case future =>
    intro e he
    rw [hwire] at he
    rw [hnext]
    rcases List.mem_append.1 he with he | he
    · exact h.future e he
    · rw [List.mem_singleton.1 he]
      exact h.sessions.tables.ownerBound fd k hkowner
  case known =>
    intro msg hmsg
    rw [hwireTo] at hmsg
    rcases List.mem_append.1 hmsg with hmsg | hmsg
    · exact h.known msg hmsg
    · split at hmsg
      · rw [List.mem_singleton.1 hmsg, hkind]
        decide
      · cases hmsg
  case bienvenue =>
    rw [hcount]
    by_cases hk : k = K
    · rw [hexpected (hk ▸ hkowner)]
      simp [hk]
    · simpa [hk] using h.bienvenue
  case expected =>
    intro fd' hfd' hK
    rw [howner] at hK
    rw [hcount, h.expected fd' (hperm.mem_iff.2 (List.mem_cons_of_mem _ hfd')) hK]
    by_cases hk : k = K
    -- a connection has one descriptor, and its task is done
    · obtain rfl := h.owners fd fd' K (hk ▸ hkowner) hK
      exact absurd hfd' hnew
    · simp [hk]
  case welcome =>
    rw [hcount]
    simpa using h.welcome
  case answers =>
    rw [hanswers]
    exact h.answers
  case buffers =>
    intro c cl hc hk
    have hlive : LiveClient m.server c cl :=
      ⟨by rw [Server.live, ← hclients]; exact hc.live, by rw [← hheap]; exact hc.heap⟩
    rw [hanswers]
    exact h.buffers c cl hlive (hmove.session_back h.sessions hlive hk)

/-- Nothing was written to a new connection. -/
theorem Machine.Accounts.accept {cmds logins : Nat} (h : m.Accounts K cmds logins) {new : Fd} {rest : List Fd}
    (hs : Machine.Sessions { m with
      phase := .scan rest
      owner := Function.update m.owner new (some m.nextConn)
      handshakes := pushTask m.handshakes new
      nextConn := m.nextConn + 1 })
    (hmove : MachineMove cfg m (.accept new) { m with
      phase := .scan rest
      owner := Function.update m.owner new (some m.nextConn)
      handshakes := pushTask m.handshakes new
      nextConn := m.nextConn + 1 }) :
    Machine.Accounts { m with
      phase := .scan rest
      owner := Function.update m.owner new (some m.nextConn)
      handshakes := pushTask m.handshakes new
      nextConn := m.nextConn + 1 } K cmds logins := by
  have hnew : ∀ fd, m.owner fd ≠ some m.nextConn := fun fd hk =>
    Nat.lt_irrefl _ (h.sessions.tables.ownerBound fd _ hk)
  have hempty : K = m.nextConn → countKind .bienvenue (m.wireTo K) = 0 := by
    rintro rfl
    refine countKind_eq_zero fun msg hmsg => ?_
    obtain ⟨e, he, hmsg⟩ := List.mem_filterMap.1 hmsg
    split at hmsg
    · rename_i hk
      exact absurd (h.future e he) (hk ▸ Nat.lt_irrefl _)
    · cases hmsg
  constructor
  case sessions => exact hs
  case outbox => exact h.outbox
  case owners =>
    intro fd fd' k hk hk'
    rcases hmove.owner hk with hold | ⟨hfd, rfl, -⟩
    · rcases hmove.owner hk' with hold' | ⟨-, rfl, -⟩
      · exact h.owners fd fd' k hold hold'
      · exact absurd hold (hnew fd)
    · rcases hmove.owner hk' with hold' | ⟨hfd', -, -⟩
      · exact absurd hold' (hnew fd')
      · exact MachineAction.accept.inj (hfd.symm.trans hfd')
  case future => exact fun e he => Nat.lt_succ_of_lt (h.future e he)
  case known => exact h.known
  case bienvenue => exact h.bienvenue
  case expected =>
    intro fd hfd hk
    rcases hmove.owner hk with hold | ⟨-, hnext, -⟩
    · rcases hmove.pending hfd with hpend | ⟨-, hclosed⟩
      · exact h.expected fd hpend hold
      · rw [hclosed] at hold
        cases hold
    · exact hempty hnext
  case welcome => exact h.welcome
  case answers => exact h.answers
  case buffers => exact fun c cl hc hk => h.buffers c cl ⟨hc.live, hc.heap⟩ hk

/-- The accounts go on with every step, by what it receives on `K`. -/
theorem Machine.Accounts.step {cmds logins : Nat} (h : m.Accounts K cmds logins) (hG : SessionGuard m act)
    (hstep : machineStep cfg m act = some m') :
    m'.Accounts K (cmds + commandsIn (m.hears K act)) (logins + loginsIn (m.hears K act)) := by
  have hs := h.sessions.step hG hstep
  have hmove := machineStep_move hstep
  have hsame := hmove
  cases hmove with
  | tick t hphase => exact h.still hs hsame ⟨rfl, rfl, rfl⟩ (by simp) rfl rfl
  | handshakeReady hq howner => exact h.still hs hsame ⟨rfl, rfl, rfl⟩ (by simp) rfl rfl
  | handshakeFailed hq howner => exact h.still hs hsame ⟨rfl, rfl, rfl⟩ (by simp) rfl rfl
  | handshakeLost hq howner => exact h.still hs hsame ⟨rfl, rfl, rfl⟩ (by simp) rfl rfl
  | @welcomed fd k rest hphase hq howner =>
    have hwire : ({ m with
        finished := rest, session := Function.update m.session fd (some k) }.onAcceptSuccess fd).wire =
        m.wire ++ [(k, [("type", .str "bienvenue"), ("msg", .str "Whoa! Knock knock, whos there?")])] := by
      simp [Machine.onAcceptSuccess, Machine.deliver, Server.createJsonResponse, Server.send, h.outbox]
    exact h.greet hs hsame hq howner rfl ⟨rfl, rfl, h.outbox.symm⟩ rfl rfl hwire rfl
  | refused hphase hq => exact h.still hs hsame ⟨rfl, rfl, rfl⟩ (by simp) rfl rfl
  | lookupEnd hphase hq => exact h.still hs hsame ⟨rfl, rfl, rfl⟩ (by simp) rfl rfl
  | idle hphase => exact h.still hs hsame ⟨rfl, rfl, rfl⟩ (by simp) rfl rfl
  | select hphase hready => exact h.still hs hsame ⟨rfl, rfl, rfl⟩ (by simp) rfl rfl
  | acceptFailed hphase => exact h.still hs hsame ⟨rfl, rfl, rfl⟩ (by simp) rfl rfl
  | accept hphase hclosed => exact h.accept hs hsame
  | hangUp hphase =>
    -- a text on a descriptor where nobody is heard counts too, which the bounds allow
    have hstill := h.still hs hsame (gameKillPlayer_same _ _) (by simp) rfl rfl
    exact hstill.mono (Nat.le_add_right _ _) (Nat.le_add_right _ _)
  | message hphase hheard hmsg =>
    exact h.receive hphase hheard hmsg hs rfl ⟨rfl, rfl⟩ (fun _ _ hk => hk) (fun _ _ hk => hk) rfl rfl rfl
  | @misbehaved fd rest text draw k s₁ hphase hheard hmsg =>
    obtain ⟨hclients, hheap, hout⟩ := gameKillPlayer_same { s₁ with outbox := [] } fd
    exact h.receive hphase hheard hmsg hs hout ⟨hclients, hheap⟩ (fun _ _ hk => update_none_some hk)
      (fun _ _ hk => update_none_some hk) rfl rfl rfl
  | scanEnd hphase => exact h.still hs hsame ⟨rfl, rfl, rfl⟩ (by simp) rfl rfl
  | remove hphase => exact h.still hs hsame (gameKillPlayer_same _ _) (by simp) rfl rfl
  | drainEnd hphase => exact h.still hs hsame ⟨rfl, rfl, rfl⟩ (by simp) rfl rfl
  | playSlot hphase hi hplay => exact h.playSlot hs hplay
  | @playServer chance s₁ hphase hplay =>
    obtain ⟨hheap, hclients, -, hout⟩ := processServer_same h.sessions.game.wf hplay
    have hnone : s₁.outbox = [] := hout.trans h.outbox
    refine h.still hs hsame ⟨hclients, hheap, h.outbox.symm⟩ (by simp) ?_ rfl
    simp [Machine.deliver, hnone]

theorem accounts_init (cfg : Config) (width height : Nat) (teams : List String) (nbClients : Nat)
    (counts : Nat → InventoryType → Nat) (K : Conn) :
    (machineInit cfg width height teams nbClients counts).Accounts K 0 0 where
  sessions := sessions_init width height teams nbClients counts
  outbox := rfl
  owners := by
    intro fd fd' k hk hk'
    simp only [machineInit] at hk hk'
    split at hk
    · split at hk'
      · rename_i hfd hfd'
        rw [hfd, hfd']
      · cases hk'
    · cases hk
  future := fun e he => absurd he List.not_mem_nil
  known := fun msg hmsg => absurd hmsg List.not_mem_nil
  bienvenue := Nat.zero_le _
  expected := fun fd hfd => absurd hfd List.not_mem_nil
  welcome := Nat.le_refl _
  answers := Nat.le_refl _
  buffers := fun c cl hc => by cases hc.heap

end Zappy

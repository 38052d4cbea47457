import Zappy.MachineSteps
import Zappy.Turns

/-!
# Who controls a player

The client that a login registers keeps the descriptor and the connection of that login.  As long as the connection
lives, it owns the descriptor and is heard on it, and no handshake is pending on it.  When the connection is gone,
nobody is heard on the descriptor until the player has died, in the same pass of `main_loop`.  Two things break
this: a second login on a descriptor that a live client holds, and an `accept` that returns a descriptor on which a
handshake is pending, whose failure would close the new connection behind the back of the game.
-/

namespace Zappy

open Relation Run Slots

variable {cfg : Config} {s s' : Server} {a : GameAction} {m m' : Machine} {act : MachineAction}

/-! ### Sessions of the game -/

/-- An event of the client of player `p` and connection `k` is about that player and comes from that connection. -/
def OwnEvent (p : Addr) (k : Conn) (data : Option Addr) (origin : Conn) : Prop := data = some p ∧ origin = k

/-- The connection of every live client has logged in. -/
def LoggedIn (s : Server) : Prop := ∀ c cl, LiveClient s c cl → cl.conn ∈ s.logins

theorem Effect.logins (he : Effect cfg a s s') {k : Conn} (h : k ∈ s.logins) : k ∈ s'.logins := by
  cases he with
  | enter =>
    rw [enterGame_eq, onTile, (addPlayer_same _ _ _).rest]
    exact List.mem_append_left _ h
  | @die _ chance i c cl pl hi hcl hpl hfood =>
    rw [(gamePlayerDie_deceased cfg s c cl hfood).rest]
    exact h
  | @move _ chance i p q pl ql hpl hql =>
    rw [(movePlayer_same s p (stepAhead s ql.pos ql.dir)).rest]
    exact h
  | _ => exact h

theorem Effect.loggedIn (he : Effect cfg a s s') (h : LoggedIn s) : LoggedIn s' := by
  intro c cl' hc
  rcases he.liveClient hc with ⟨cl, hc, hid⟩ | ⟨conn, fd, teamName, draw, -, -, hlogin, -, rfl⟩
  · rw [(Client.identity_eq hid).2.2]
    exact he.logins (h c cl hc)
  · exact hlogin

/-- A live client after a step was there before, or it has just logged in. -/
private theorem gameStep_liveClient (hwf : BuffersWF s) (h : gameStep cfg s a = some s') {c : Addr} {cl' : Client}
    (hc : LiveClient s' c cl') : (∃ cl, LiveClient s c cl ∧ cl'.identity = cl.identity) ∨
      a.sender = some (cl'.conn, cl'.socketFd) := by
  have heff := gameStep_effects hwf h
  clear h
  induction heff generalizing cl' with
  | refl => exact Or.inl ⟨cl', hc, rfl⟩
  | tail _ he ih =>
    rcases he.liveClient hc with ⟨cl, hc, hid⟩ | ⟨conn, fd, teamName, draw, rfl, -, -, -, rfl⟩
    · rcases ih hc with ⟨cl₀, hc₀, hid₀⟩ | hsender
      · exact Or.inl ⟨cl₀, hc₀, hid.trans hid₀⟩
      · obtain ⟨hfd, -, hk⟩ := Client.identity_eq hid
        rw [hfd, hk]
        exact Or.inr hsender
    · exact Or.inr rfl

/-- What holds of the game along guarded runs: no two clients share a descriptor, and what is queued for a client
is about its player and comes from its connection. -/
structure GameSessions (s : Server) : Prop where
  wf : BuffersWF s
  reg : Registered s
  unique : UniqueFds s
  events : EventsOf OwnEvent s
  loggedIn : LoggedIn s

/-- Whoever is heard on the descriptor of a client is the connection of that client. -/
def HeardOwn (m : Machine) (s : Server) : Prop :=
  ∀ c cl, LiveClient s c cl → ∀ k, m.heard cl.socketFd = some k → k = cl.conn

theorem GameSessions.step (h : GameSessions s) (hheard : HeardOwn m s) (hin : Inside m act s a)
    (hL : m.LoginOnce act) (hstep : gameStep cfg s a = some s') : GameSessions s' ∧ HeardOwn m s' := by
  have hreg := gameStep_invariant (I := Registered) (fun _ _ _ he _ h => he.registered h) h.wf h.reg hstep
  have hlogin := gameStep_invariant (I := LoggedIn) (fun _ _ _ he _ h => he.loggedIn h) h.wf h.loggedIn hstep
  refine ⟨⟨hreg.1, hreg.2, h.unique.step h.wf (hin.login hL) hstep, ?_, hlogin.2⟩, ?_⟩
  · refine h.events.step (fun _ _ _ _ ho => ho.1) h.wf h.reg h.unique ?_ hstep
    cases a with
    | execute conn fd cmd arg =>
      intro c cl hc hfd
      exact ⟨rfl, hheard c cl hc conn (hfd ▸ hin.heard conn fd rfl)⟩
    | _ => exact trivial
  · intro c cl' hc k hk
    rcases gameStep_liveClient h.wf hstep hc with ⟨cl, hc, hid⟩ | hsender
    · obtain ⟨hfd, -, hconn⟩ := Client.identity_eq hid
      rw [hconn]
      exact hheard c cl hc k (hfd ▸ hk)
    · have := hin.heard _ _ hsender
      exact Option.some.inj (hk.symm.trans this)

theorem GameRun.sessions (hrun : GameRun cfg m act s) (h : GameSessions m.server) (hheard : HeardOwn m m.server)
    (hL : m.LoginOnce act) : GameSessions s :=
  (hrun.invariant (I := fun s => GameSessions s ∧ HeardOwn m s)
    (fun _ _ _ hstep hin hI => hI.1.step hI.2 hin hL hstep) ⟨h, hheard⟩).1

/-- A live client after a step of the machine was there before, or the connection heard on its descriptor has just
logged in. -/
theorem GameRun.liveClient (hrun : GameRun cfg m act s) (hwf : BuffersWF m.server) {c : Addr} {cl' : Client}
    (hc : LiveClient s c cl') : (∃ cl, LiveClient m.server c cl ∧ cl'.identity = cl.identity) ∨
      m.heard cl'.socketFd = some cl'.conn := by
  refine (hrun.invariant (I := fun s => BuffersWF s ∧ ∀ cl', LiveClient s c cl' →
    (∃ cl, LiveClient m.server c cl ∧ cl'.identity = cl.identity) ∨ m.heard cl'.socketFd = some cl'.conn)
    (fun s a s' hstep hin hI => ?_) ⟨hwf, fun cl hc => Or.inl ⟨cl, hc, rfl⟩⟩).2 cl' hc
  refine ⟨(gameStep_invariant (I := fun _ => True) (fun _ _ _ _ _ _ => trivial) hI.1 trivial hstep).1, ?_⟩
  intro cl' hc
  rcases gameStep_liveClient hI.1 hstep hc with ⟨cl, hc, hid⟩ | hsender
  · obtain ⟨hfd, -, hk⟩ := Client.identity_eq hid
    rcases hI.2 cl hc with ⟨cl₀, hc₀, hid₀⟩ | hheard
    · exact Or.inl ⟨cl₀, hc₀, hid.trans hid₀⟩
    · rw [hfd, hk]
      exact Or.inr hheard
  · exact Or.inr (hin.heard _ _ hsender)

theorem GameRun.doomed (hrun : GameRun cfg m act s) (hact : ∀ chance, act ≠ .playSlot chance)
    (hwf : BuffersWF m.server) (hreg : Registered m.server) {p : Addr} (hp : Doomed m.server p) : Doomed s p := by
  refine hrun.registered_invariant (I := fun s => Doomed s p) (fun s a s' hstep hin hwf hreg hp => ?_) hwf hreg hp
  exact gameStep_doomed (fun chance i ha => hact chance (hin.turn chance i ha)) hwf hreg hstep hp

/-! ### Tables of descriptors -/

/-- The descriptors on which a handshake is pending. -/
def Machine.pending (m : Machine) : List Fd := m.handshakes ++ m.finished.map Prod.fst

/-- `accept` returns no descriptor on which a handshake is pending. -/
def AcceptIdle (m : Machine) : MachineAction → Prop
  | .accept fd => fd ∉ m.pending
  | _ => True

/-- No connection is heard while its handshake is pending, and there are no connections from the future. -/
structure Tables (m : Machine) : Prop where
  nodup : m.pending.Nodup
  silent : ∀ fd ∈ m.pending, ∀ k, m.owner fd = some k → m.session fd ≠ some k
  ownerBound : ∀ fd k, m.owner fd = some k → k < m.nextConn
  sessionBound : ∀ fd k, m.session fd = some k → k < m.nextConn
  finishedBound : ∀ e ∈ m.finished, e.2 < m.nextConn

/-- Closing descriptors and dropping tasks keeps the tables in order. -/
theorem Tables.mono (h : Tables m) (hnodup : m'.pending.Nodup) (hsub : ∀ fd ∈ m'.pending, fd ∈ m.pending)
    (howner : ∀ fd k, m'.owner fd = some k → m.owner fd = some k)
    (hsession : ∀ fd k, m'.session fd = some k → m.session fd = some k) (hnext : m'.nextConn = m.nextConn)
    (hfinished : ∀ e ∈ m'.finished, e.2 < m.nextConn) : Tables m' where
  nodup := hnodup
  silent := fun fd hfd k hk hs => h.silent fd (hsub fd hfd) k (howner fd k hk) (hsession fd k hs)
  ownerBound := fun fd k hk => hnext ▸ h.ownerBound fd k (howner fd k hk)
  sessionBound := fun fd k hk => hnext ▸ h.sessionBound fd k (hsession fd k hk)
  finishedBound := fun e he => hnext ▸ hfinished e he

private theorem pushTask_subset {α : Type} {tasks : List α} {task x : α} (h : x ∈ pushTask tasks task) :
    x ∈ tasks ∨ x = task := by
  unfold pushTask at h
  split at h
  · cases h
  · simpa using h

private theorem pushTask_sublist {α : Type} (tasks : List α) (task : α) :
    (pushTask tasks task).Sublist (tasks ++ [task]) := by
  unfold pushTask
  split
  · exact List.nil_sublist _
  · exact .refl _

/-- A descriptor on which a handshake is pending after a step was there before, or `accept` has returned it. -/
theorem MachineMove.pending (h : MachineMove cfg m act m') {fd : Fd} (hfd : fd ∈ m'.pending) :
    fd ∈ m.pending ∨ (act = .accept fd ∧ m.owner fd = none) := by
  have htask : ∀ {fd' rest}, m.handshakes = fd' :: rest → fd ∈ rest ++ m.finished.map Prod.fst → fd ∈ m.pending := by
    intro fd' rest hq hfd
    rw [Machine.pending, hq]
    exact List.mem_cons_of_mem _ hfd
  have hdone : ∀ {e rest}, m.finished = e :: rest → fd ∈ m.handshakes ++ rest.map Prod.fst → fd ∈ m.pending := by
    intro e rest hq hfd
    rw [Machine.pending, hq]
    exact (List.Sublist.append (.refl _) (List.sublist_cons_self _ _)).subset hfd
  cases h with
  | @handshakeReady fd' rest k hq howner =>
    refine Or.inl ?_
    rw [Machine.pending, hq]
    rcases List.mem_append.1 hfd with hfd | hfd
    · exact List.mem_append_left _ (List.mem_cons_of_mem _ hfd)
    · obtain ⟨e, he, rfl⟩ := List.mem_map.1 hfd
      rcases pushTask_subset he with he | rfl
      · exact List.mem_append_right _ (List.mem_map_of_mem he)
      · exact List.mem_append_left _ List.mem_cons_self
  | handshakeFailed hq => exact Or.inl (htask hq hfd)
  | handshakeLost hq => exact Or.inl (htask hq hfd)
  | welcomed hphase hq => exact Or.inl (hdone hq hfd)
  | refused hphase hq => exact Or.inl (hdone hq hfd)
  | accept hphase hclosed =>
    rcases List.mem_append.1 hfd with hfd | hfd
    · rcases pushTask_subset hfd with hfd | rfl
      · exact Or.inl (List.mem_append_left _ hfd)
      · exact Or.inr ⟨rfl, hclosed⟩
    · exact Or.inl (List.mem_append_right _ hfd)
  | _ => exact Or.inl hfd

/-- The task of a finished handshake goes, and its session comes. -/
theorem Tables.finish (h : Tables m) {fd : Fd} {k : Conn} {rest : List (Fd × Conn)}
    (hq : m.finished = (fd, k) :: rest) (hhandshakes : m'.handshakes = m.handshakes) (hfinished : m'.finished = rest)
    (howner : ∀ fd k, m'.owner fd = some k → m.owner fd = some k)
    (hsession : m'.session = Function.update m.session fd (some k)) (hnext : m'.nextConn = m.nextConn) :
    Tables m' := by
  have hperm : m.pending.Perm (fd :: m'.pending) := by
    rw [Machine.pending, Machine.pending, hq, hhandshakes, hfinished, List.map_cons]
    exact List.perm_middle
  obtain ⟨hfd, hnodup⟩ := List.nodup_cons.1 (hperm.nodup_iff.1 h.nodup)
  have hk : k < m.nextConn := h.finishedBound (fd, k) (by rw [hq]; exact List.mem_cons_self)
  constructor
  case nodup => exact hnodup
  case silent =>
    intro fd' hfd' k' hk' hs
    have hne : fd' ≠ fd := fun he => hfd (he ▸ hfd')
    rw [hsession, Function.update_of_ne hne] at hs
    exact h.silent fd' (hperm.mem_iff.2 (List.mem_cons_of_mem _ hfd')) k' (howner fd' k' hk') hs
  case ownerBound => exact fun fd' k' hk' => hnext ▸ h.ownerBound fd' k' (howner fd' k' hk')
  case sessionBound =>
    intro fd' k' hk'
    rw [hsession, Function.update_apply] at hk'
    rw [hnext]
    split at hk'
    · cases hk'; exact hk
    · exact h.sessionBound fd' k' hk'
  case finishedBound =>
    rw [hfinished, hnext]
    exact fun e he => h.finishedBound e (by rw [hq]; exact List.mem_cons_of_mem _ he)

theorem Tables.step (h : Tables m) (hG : AcceptIdle m act) (hmove : MachineMove cfg m act m') : Tables m' := by
  cases hmove with
  | @handshakeReady fd rest k hq howner =>
    have hsub : (rest ++ (pushTask m.finished (fd, k)).map Prod.fst).Sublist
        (rest ++ (m.finished ++ [(fd, k)]).map Prod.fst) :=
      (List.Sublist.refl rest).append ((pushTask_sublist m.finished (fd, k)).map Prod.fst)
    have hperm : (rest ++ (m.finished ++ [(fd, k)]).map Prod.fst).Perm m.pending := by
      rw [Machine.pending, hq, List.map_append, ← List.append_assoc]
      exact List.perm_append_comm
    refine h.mono (hsub.nodup (hperm.nodup_iff.2 h.nodup)) (fun fd' hfd' => hperm.mem_iff.1 (hsub.subset hfd'))
      (fun _ _ h' => h') (fun _ _ h' => h') rfl fun e he => ?_
    rcases pushTask_subset he with he | rfl
    · exact h.finishedBound e he
    · exact h.ownerBound fd k howner
  | @handshakeFailed fd rest k hq howner =>
    have hsub : (rest ++ m.finished.map Prod.fst).Sublist m.pending := by
      rw [Machine.pending, hq]; exact List.sublist_cons_self _ _
    exact h.mono (hsub.nodup h.nodup) (fun fd' hfd' => hsub.subset hfd') (fun _ _ h' => update_none_some h')
      (fun _ _ h' => h') rfl h.finishedBound
  | @handshakeLost fd rest ok hq howner =>
    have hsub : (rest ++ m.finished.map Prod.fst).Sublist m.pending := by
      rw [Machine.pending, hq]; exact List.sublist_cons_self _ _
    exact h.mono (hsub.nodup h.nodup) (fun fd' hfd' => hsub.subset hfd') (fun _ _ h' => h')
      (fun _ _ h' => h') rfl h.finishedBound
  | welcomed hphase hq howner => exact h.finish hq rfl rfl (fun _ _ h' => h') rfl rfl
  | refused hphase hq => exact h.finish hq rfl rfl (fun _ _ h' => update_none_some h') rfl rfl
  | @accept fd new rest hphase hclosed =>
    have hsub : (pushTask m.handshakes new ++ m.finished.map Prod.fst).Sublist
        ((m.handshakes ++ [new]) ++ m.finished.map Prod.fst) :=
      (pushTask_sublist m.handshakes new).append (.refl _)
    have hperm : ((m.handshakes ++ [new]) ++ m.finished.map Prod.fst).Perm (new :: m.pending) := by
      rw [List.append_assoc]
      exact List.perm_middle
    constructor
    case nodup => exact hsub.nodup (hperm.nodup_iff.2 (List.nodup_cons.2 ⟨hG, h.nodup⟩))
    case silent =>
      intro fd' hfd' k hk hs
      simp only [Function.update_apply] at hk
      split at hk
      · cases hk
        exact Nat.lt_irrefl _ (h.sessionBound fd' _ hs)
      · rename_i hne
        exact h.silent fd' ((List.mem_cons.1 (hperm.mem_iff.1 (hsub.subset hfd'))).resolve_left hne) k hk hs
    case ownerBound =>
      intro fd' k hk
      simp only [Function.update_apply] at hk
      split at hk
      · cases hk; exact Nat.lt_succ_self _
      · exact Nat.lt_succ_of_lt (h.ownerBound fd' k hk)
    case sessionBound => exact fun fd' k hk => Nat.lt_succ_of_lt (h.sessionBound fd' k hk)
    case finishedBound => exact fun e he => Nat.lt_succ_of_lt (h.finishedBound e he)
  | hangUp | misbehaved | remove =>
    exact h.mono h.nodup (fun _ h' => h') (fun _ _ h' => update_none_some h') (fun _ _ h' => update_none_some h') rfl
      h.finishedBound
  | _ => exact ⟨h.nodup, h.silent, h.ownerBound, h.sessionBound, h.finishedBound⟩

/-! ### Connections and clients -/

/-- The connection of the client lives and is heard on its descriptor. -/
structure Attached (m : Machine) (cl : Client) : Prop where
  owner : m.owner cl.socketFd = some cl.conn
  session : m.session cl.socketFd = some cl.conn
  idle : cl.socketFd ∉ m.pending

private theorem Attached.still_idle {cl : Client} (h : Attached m cl) (hmove : MachineMove cfg m act m') :
    cl.socketFd ∉ m'.pending := by
  intro hpend
  rcases hmove.pending hpend with hpend | ⟨-, hclosed⟩
  · exact h.idle hpend
  · rw [h.owner] at hclosed
    cases hclosed

/-- The turn of the client in this pass is still to come. -/
def Machine.Ahead (m : Machine) (c : Addr) : Prop :=
  match m.phase with
  | .lookup | .select => False
  | .scan _ | .drain _ => True
  | .play i => ∀ j < i, m.server.clients[j]? ≠ some (some c)

/-- Nobody is heard on the descriptor of the client, and its player dies in this pass. -/
structure Leaving (m : Machine) (c : Addr) (cl : Client) : Prop where
  session : m.session cl.socketFd = none
  doomed : Doomed m.server cl.player
  ahead : m.Ahead c

structure Machine.Sessions (m : Machine) : Prop where
  game : GameSessions m.server
  tables : Tables m
  status : ∀ c cl, LiveClient m.server c cl → Attached m cl ∨ Leaving m c cl

theorem Machine.heard_some {fd : Fd} {k : Conn} (h : m.heard fd = some k) :
    m.owner fd = some k ∧ m.session fd = some k := by
  unfold Machine.heard at h
  split at h
  · rename_i he
    exact ⟨h, he.trans h⟩
  · cases h

theorem Machine.Sessions.heardOwn (h : m.Sessions) : HeardOwn m m.server := by
  intro c cl hc k hk
  obtain ⟨howner, hsession⟩ := Machine.heard_some hk
  rcases h.status c cl hc with hatt | hleave
  · exact Option.some.inj (howner.symm.trans hatt.owner)
  · rw [hleave.session] at hsession
    cases hsession

/-- A client after a step outside the turns: its connection was attached before the step, or the client was about
to leave. -/
theorem Machine.Sessions.before (h : m.Sessions) (hrun : GameRun cfg m act s)
    (hact : ∀ chance, act ≠ .playSlot chance) {c : Addr} {cl' : Client} (hc : LiveClient s c cl') :
    Attached m cl' ∨ (m.session cl'.socketFd = none ∧ Doomed s cl'.player ∧ m.Ahead c ∧ c ∈ m.server.live) := by
  rcases hrun.liveClient h.game.wf hc with ⟨cl, hc, hid⟩ | hheard
  · obtain ⟨hfd, hp, hk⟩ := Client.identity_eq hid
    rcases h.status c cl hc with hatt | hleave
    · exact Or.inl ⟨by rw [hfd, hk]; exact hatt.owner, by rw [hfd, hk]; exact hatt.session, by
        rw [hfd]; exact hatt.idle⟩
    · exact Or.inr ⟨by rw [hfd]; exact hleave.session, by
        rw [hp]; exact hrun.doomed hact h.game.wf h.game.reg hleave.doomed, hleave.ahead, hc.live⟩
  · obtain ⟨howner, hsession⟩ := Machine.heard_some hheard
    exact Or.inl ⟨howner, hsession, fun hpend => h.tables.silent _ hpend _ howner hsession⟩

/-- The clients after a removal of `fd` in the game `s`: those that hold `fd` are about to leave. -/
theorem Machine.Sessions.removed (h : m.Sessions) {fd : Fd} {c : Addr} {cl : Client} (hs : GameSessions s)
    (hrun : GameRun cfg m act (gameKillPlayer s fd)) (hact : ∀ chance, act ≠ .playSlot chance)
    (howner : m'.owner = Function.update m.owner fd none) (hsession : m'.session = Function.update m.session fd none)
    (hpending : m'.pending = m.pending) (hserver : m'.server = gameKillPlayer s fd)
    (hahead : m'.Ahead c) (hc : LiveClient m'.server c cl) : Attached m' cl ∨ Leaving m' c cl := by
  rw [hserver] at hc
  by_cases hfd : cl.socketFd = fd
  · refine Or.inr ⟨by rw [hsession, hfd, Function.update_self], ?_, hahead⟩
    have hc' : LiveClient s c cl := by
      unfold gameKillPlayer at hc
      split at hc
      · exact hc
      · split at hc
        · exact hc
        · split at hc
          · exact hc
          · exact ⟨hc.live, hc.heap⟩
    rw [hserver, ← hfd]
    exact gameKillPlayer_doomed hs.reg hs.unique hc'
  · rcases h.before hrun hact hc with hatt | ⟨hnone, hdoomed, -, -⟩
    · exact Or.inl ⟨by rw [howner, Function.update_of_ne hfd]; exact hatt.owner, by
        rw [hsession, Function.update_of_ne hfd]; exact hatt.session, by rw [hpending]; exact hatt.idle⟩
    · exact Or.inr ⟨by rw [hsession, Function.update_of_ne hfd]; exact hnone, by rw [hserver]; exact hdoomed,
        hahead⟩

/-- In the turn of a slot the other clients stay as they are, and a client that is about to leave does so. -/
theorem Machine.Sessions.turn (h : m.Sessions) {chance : Chance} {i : Nat} {s₁ : Server} (hphase : m.phase = .play i)
    (hplay : gamePlaySlot cfg chance m.server i = some s₁) {c : Addr} {cl' : Client} (hc : LiveClient s₁ c cl') :
    Attached m cl' ∨ (m.session cl'.socketFd = none ∧ Doomed s₁ cl'.player ∧
      ∀ j < i + 1, s₁.clients[j]? ≠ some (some c)) := by
  have hstep : gameStep cfg m.server (.playSlot chance i) = some s₁ := hplay
  rcases gameStep_liveClient h.game.wf hstep hc with ⟨cl, hcl, hid⟩ | hsender
  · obtain ⟨hfd, hp, hk⟩ := Client.identity_eq hid
    rcases h.status c cl hcl with hatt | hleave
    · exact Or.inl ⟨by rw [hfd, hk]; exact hatt.owner, by rw [hfd, hk]; exact hatt.session, by
        rw [hfd]; exact hatt.idle⟩
    · refine Or.inr ⟨by rw [hfd]; exact hleave.session, ?_⟩
      have hahead : ∀ j < i, m.server.clients[j]? ≠ some (some c) := by
        have := hleave.ahead
        rwa [Machine.Ahead, hphase] at this
      have hturn : m.server.clients[i]? ≠ some (some c) := by
        intro hi
        exact gamePlaySlot_doomed h.game.reg hi hcl.heap hleave.doomed hplay hc.live
      refine ⟨?_, fun j hj hslot => ?_⟩
      · rw [hp]
        refine hleave.doomed.congr ?_
        cases hi : m.server.clients[i]? with
        | none => simp only [gamePlaySlot, hi, Option.some.injEq] at hplay; rw [hplay]
        | some slot =>
          cases slot with
          | none => simp only [gamePlaySlot, hi, Option.some.injEq] at hplay; rw [hplay]
          | some d =>
            obtain ⟨dl, pl, hdl, -, -⟩ := h.game.reg.client_heap (mem_of_getElem? hi)
            have hd : LiveClient m.server d dl := ⟨mem_of_getElem? hi, hdl⟩
            refine gamePlaySlot_vitals h.game.wf hi hdl (fun ev hev => (h.game.events d dl hd ev hev).1) ?_ hplay
            intro he
            refine hturn ?_
            rw [h.game.reg.distinct c hcl.live d hd.live cl.socketFd dl.socketFd cl.player
              (by rw [Server.clientKey, hcl.heap]; rfl) (by rw [Server.clientKey, hdl, he]; rfl)]
            exact hi
      · have hold := gamePlaySlot_clients h.game.wf hplay hslot
        rcases Nat.lt_succ_iff_lt_or_eq.1 hj with hj | rfl
        · exact hahead j hj hold
        · exact hturn hold
  · cases hsender

/-- What a step guards against. -/
structure SessionGuard (m : Machine) (act : MachineAction) : Prop where
  login : m.LoginOnce act
  accept : AcceptIdle m act

theorem Machine.Sessions.step (h : m.Sessions) (hG : SessionGuard m act) (hstep : machineStep cfg m act = some m') :
    m'.Sessions := by
  have hrun := machineStep_server hstep
  have hmove := machineStep_move hstep
  refine ⟨hrun.sessions h.game h.heardOwn hG.login, h.tables.step hG.accept hmove, fun c cl hc => ?_⟩
  have hnobody : m.phase = .lookup ∨ m.phase = .select → ∀ c, ¬ m.Ahead c := by
    rintro (hphase | hphase) c hahead <;> rwa [Machine.Ahead, hphase] at hahead
  have hfinished : ∀ {fd k rest}, m.finished = (fd, k) :: rest → fd ∈ m.pending := fun hq =>
    List.mem_append_right _ (List.mem_map.2 ⟨_, by rw [hq]; exact List.mem_cons_self, rfl⟩)
  have hidle : ∀ {cl}, Attached m cl → cl.socketFd ∉ m'.pending := fun hatt => hatt.still_idle hmove
  cases hmove with
  | tick t hphase =>
    rcases h.before hrun (by simp) hc with hatt | ⟨hnone, hdoomed, hahead, -⟩
    · exact Or.inl ⟨hatt.owner, hatt.session, hatt.idle⟩
    · exact Or.inr ⟨hnone, hdoomed, hahead⟩
  | handshakeReady hq howner =>
    exact (h.status c cl hc).imp (fun hatt => ⟨hatt.owner, hatt.session, hidle hatt⟩)
      fun hleave => ⟨hleave.session, hleave.doomed, hleave.ahead⟩
  | @handshakeFailed fd rest k hq howner =>
    refine (h.status c cl hc).imp (fun hatt => ?_) fun hleave => ⟨hleave.session, hleave.doomed, hleave.ahead⟩
    have hne : cl.socketFd ≠ fd := fun he => hatt.idle (by rw [he, Machine.pending, hq]; exact List.mem_cons_self)
    exact ⟨(Function.update_of_ne hne _ _).trans hatt.owner, hatt.session, hidle hatt⟩
  | handshakeLost hq howner =>
    exact (h.status c cl hc).imp (fun hatt => ⟨hatt.owner, hatt.session, hidle hatt⟩)
      fun hleave => ⟨hleave.session, hleave.doomed, hleave.ahead⟩
  | @welcomed fd k rest hphase hq howner =>
    rcases h.status c cl ⟨hc.live, hc.heap⟩ with hatt | hleave
    · have hne : cl.socketFd ≠ fd := fun he => hatt.idle (by rw [he]; exact hfinished hq)
      exact Or.inl ⟨hatt.owner, (Function.update_of_ne hne _ _).trans hatt.session, hidle hatt⟩
    · exact absurd hleave.ahead (hnobody (Or.inl hphase) c)
  | @refused fd k rest ok hphase hq =>
    rcases h.status c cl hc with hatt | hleave
    · have hne : cl.socketFd ≠ fd := fun he => hatt.idle (by rw [he]; exact hfinished hq)
      exact Or.inl ⟨(Function.update_of_ne hne _ _).trans hatt.owner,
        (Function.update_of_ne hne _ _).trans hatt.session, hidle hatt⟩
    · exact absurd hleave.ahead (hnobody (Or.inl hphase) c)
  | lookupEnd hphase hq =>
    refine (h.status c cl hc).imp (fun hatt => ⟨hatt.owner, hatt.session, hatt.idle⟩) fun hleave => ?_
    exact absurd hleave.ahead (hnobody (Or.inl hphase) c)
  | idle hphase | select hphase =>
    refine (h.status c cl hc).imp (fun hatt => ⟨hatt.owner, hatt.session, hatt.idle⟩) fun hleave => ?_
    exact absurd hleave.ahead (hnobody (Or.inr hphase) c)
  | acceptFailed hphase =>
    exact (h.status c cl hc).imp (fun hatt => ⟨hatt.owner, hatt.session, hatt.idle⟩)
      fun hleave => ⟨hleave.session, hleave.doomed, trivial⟩
  | @accept fd new rest hphase hclosed =>
    refine (h.status c cl hc).imp (fun hatt => ?_) fun hleave => ⟨hleave.session, hleave.doomed, trivial⟩
    have hne : cl.socketFd ≠ new := by
      intro he
      rw [← he, hatt.owner] at hclosed
      cases hclosed
    exact ⟨(Function.update_of_ne hne _ _).trans hatt.owner, hatt.session, hidle hatt⟩
  | @hangUp fd rest input draw hphase =>
    exact h.removed h.game hrun (by simp) rfl rfl rfl rfl trivial hc
  | message hphase hheard hmsg =>
    rcases h.before hrun (by simp) hc with hatt | ⟨hnone, hdoomed, -, -⟩
    · exact Or.inl ⟨hatt.owner, hatt.session, hatt.idle⟩
    · exact Or.inr ⟨hnone, hdoomed, trivial⟩
  | @misbehaved fd rest text draw k s₁ hphase hheard hmsg =>
    have hs₁ := (GameRun.handled hphase hheard (handleClientMessage_handled hmsg)).sessions h.game h.heardOwn hG.login
    exact h.removed hs₁ hrun (by simp) rfl rfl rfl rfl trivial hc
  | scanEnd hphase =>
    rcases h.before hrun (by simp) hc with hatt | ⟨hnone, hdoomed, -, -⟩
    · exact Or.inl ⟨hatt.owner, hatt.session, hatt.idle⟩
    · exact Or.inr ⟨hnone, hdoomed, trivial⟩
  | @remove fd k rest hphase =>
    exact h.removed h.game hrun (by simp) rfl rfl rfl rfl trivial hc
  | drainEnd hphase =>
    exact (h.status c cl hc).imp (fun hatt => ⟨hatt.owner, hatt.session, hatt.idle⟩)
      fun hleave => ⟨hleave.session, hleave.doomed, fun j hj => absurd hj (Nat.not_lt_zero j)⟩
  | playSlot hphase hi hplay =>
    rcases h.turn hphase hplay ⟨hc.live, hc.heap⟩ with hatt | ⟨hnone, hdoomed, hahead⟩
    · exact Or.inl ⟨hatt.owner, hatt.session, hatt.idle⟩
    · exact Or.inr ⟨hnone, hdoomed, hahead⟩
  | playServer hphase hplay =>
    rcases h.before hrun (by simp) hc with hatt | ⟨-, -, hahead, hlive⟩
    · exact Or.inl ⟨hatt.owner, hatt.session, hatt.idle⟩
    · -- all slots have had their turn
      rw [Machine.Ahead, hphase] at hahead
      obtain ⟨j, hj⟩ := List.getElem?_of_mem (List.reduceOption_mem_iff.1 hlive)
      exact absurd hj (hahead j (List.getElem?_eq_some_iff.1 hj).1)

/-! ### Runs -/

/-- No two live clients hold the same descriptor, and every event queued for a live client is about its own player
and comes from its own connection, which has logged in. -/
structure SessionsOK (s : Server) : Prop where
  unique : UniqueFds s
  owned : ∀ c cl, LiveClient s c cl → (∀ ev ∈ cl.eventBuffer.queued, ev.data = some cl.player ∧ ev.origin = cl.conn) ∧
    cl.conn ∈ s.logins

theorem sessions_init (width height : Nat) (teams : List String) (nbClients : Nat)
    (counts : Nat → InventoryType → Nat) : (machineInit cfg width height teams nbClients counts).Sessions where
  game := ⟨buffersWF_init _ _ _, registered_init _ _ _ _ _, uniqueFds_init _ _ _ _ _, eventsOf_init _ _ _ _ _ _,
    fun _ _ hc => by cases hc.heap⟩
  tables := {
    nodup := List.nodup_nil
    silent := fun fd hfd => by cases hfd
    ownerBound := fun fd k hk => by
      simp only [machineInit] at hk
      split at hk
      · cases hk; exact Nat.zero_lt_one
      · cases hk
    sessionBound := fun fd k hk => by cases hk
    finishedBound := fun e he => by cases he }
  status := fun _ _ hc => by cases hc.heap

/-- In every run each of whose successful logins comes on a descriptor that no live client holds, and in which
`accept` returns no descriptor on which a handshake is pending, players are controlled by the connections that
registered them. -/
theorem sessions_control_own_players (cfg : Config) (width height : Nat) (teams : List String) (nbClients : Nat)
    (counts : Nat → InventoryType → Nat) (as : List MachineAction) {m : Machine}
    (hG : Guarded (machineStep cfg) SessionGuard (machineInit cfg width height teams nbClients counts) as)
    (h : run (machineStep cfg) (machineInit cfg width height teams nbClients counts) as = some m) :
    SessionsOK m.server := by
  have hs : m.Sessions := hG.invariant (I := Machine.Sessions) (fun m act m' hstep hG hI => hI.step hG hstep) h
    (sessions_init _ _ _ _ _)
  exact ⟨hs.game.unique, fun c cl hc => ⟨fun ev hev => hs.game.events c cl hc ev hev, hs.game.loggedIn c cl hc⟩⟩

/-- A test for `SessionGuard`. -/
def sessionTest (m : Machine) : MachineAction → Bool
  | .accept fd => !m.pending.contains fd
  | .receive (.text (some msg)) _ =>
    match m.phase with
    | .scan (fd :: _) => msg.joins.isNone || (m.server.gameGetClientFromFd fd).isNone
    | _ => true
  | _ => true

theorem sessionGuard_of_test (m : Machine) (act : MachineAction) (h : sessionTest m act) : SessionGuard m act := by
  constructor
  case accept =>
    cases act with
    | accept fd => simpa [AcceptIdle, sessionTest] using h
    | _ => exact trivial
  case login =>
    unfold Machine.LoginOnce
    split
    · rename_i msg draw
      intro fd rest teamName hphase _ hjoins _ hheld
      rw [fdHeld_iff] at hheld
      simp only [sessionTest, hphase, hjoins, Option.isNone_some, Bool.false_or, Option.isNone_iff_eq_none] at h
      rw [h] at hheld
      cases hheld
    · trivial

/-- A player logs in and sends a command; it leaves and dies, and the next connection gets its descriptor and logs
in. -/
def twoSessions : List MachineAction :=
  scanPass [3] [.accept 4] 0 ++ handshakePass ++ scanPass [4] [.receive loginMessage ⟨0, 0, 0⟩] 0 ++
    scanPass [4] [.receive (.text (some { type := "cmd", cmd := "droite" })) ⟨0, 0, 0⟩] 0 ++
    scanPass [4] [.receive .closed ⟨0, 0, 0⟩] 0 ++ scanPass [3] [.acceptFailed] 1 ++ scanPass [3] [.accept 4] 0 ++
    handshakePass ++ scanPass [4] [.receive loginMessage ⟨0, 0, 0⟩] 0

theorem sessions_control_own_players_twice : ∃ m,
    run (machineStep shippedConfig) shippedMachine twoSessions = some m ∧ FdHeld m.server 4 ∧ SessionsOK m.server := by
  have hrun : (run (machineStep shippedConfig) shippedMachine twoSessions).map
      (fun m => m.server.gameGetClientFromFd 4) = some (some 2) := by decide +kernel
  have hguard : testGuard (machineStep shippedConfig) sessionTest shippedMachine twoSessions := by decide +kernel
  obtain ⟨m, hm, hheld⟩ := Option.map_eq_some_iff.1 hrun
  exact ⟨m, hm, fdHeld_iff.2 (by rw [hheld]; rfl),
    sessions_control_own_players shippedConfig 1 1 _ _ _ _ (.of_test sessionGuard_of_test hguard) hm⟩

/-- A connection logs in twice. -/
def repeatedLogin : List MachineAction :=
  scanPass [3] [.accept 4] 0 ++ handshakePass ++ scanPass [4] [.receive loginMessage ⟨0, 0, 0⟩] 0 ++
    scanPass [4] [.receive loginMessage ⟨0, 0, 0⟩] 0

/-- Both logins get a client, on the same descriptor. -/
theorem repeated_login_shares_descriptor : ∃ m,
    run (machineStep shippedConfig) shippedMachine repeatedLogin = some m ∧ ¬ SessionsOK m.server := by
  have hrun : (run (machineStep shippedConfig) shippedMachine repeatedLogin).map
      (fun m => (m.server.clients, (m.server.clientHeap 0).map Client.socketFd,
        (m.server.clientHeap 2).map Client.socketFd)) = some ([some 0, some 2], some 4, some 4) := by decide +kernel
  obtain ⟨m, hm, he⟩ := Option.map_eq_some_iff.1 hrun
  obtain ⟨hclients, he⟩ := Prod.mk.inj he
  obtain ⟨h₀, h₂⟩ := Prod.mk.inj he
  obtain ⟨cl, hcl, hfd⟩ := Option.map_eq_some_iff.1 h₀
  obtain ⟨dl, hdl, hfd'⟩ := Option.map_eq_some_iff.1 h₂
  refine ⟨m, hm, fun hok => ?_⟩
  have := hok.unique 0 2 cl dl ⟨by simp [Server.live, hclients], hcl⟩ ⟨by simp [Server.live, hclients], hdl⟩
    (hfd.trans hfd'.symm)
  cases this

end Zappy

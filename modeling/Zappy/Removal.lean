import Zappy.MachineSteps

/-!
# Whom the removal queue removes

`server_remove_client` queues the number of a descriptor, and `m_remove_clients` closes whatever that number names
when it comes to it.  The number still names the connection of the dead player as long as `accept` returns no
descriptor that is queued, or that a client holds whose connection is closed and whose player is yet to die.  Then
all claims on one descriptor, by its owner, by the clients that hold it and by the queue, are for one connection.
-/

namespace Zappy

open Run Slots

variable {cfg : Config} {a : GameAction} {s s' : Server} {m m' : Machine} {act : MachineAction}

/-! ### Claims of the game -/

/-- The descriptor is queued for a connection, or a live client of that connection holds it. -/
def Server.Claims (s : Server) (fd : Fd) (conn : Conn) : Prop :=
  (fd, conn) ∈ s.removeList ∨ ∃ c cl, LiveClient s c cl ∧ cl.socketFd = fd ∧ cl.conn = conn

/-- Only the death of a live client queues a descriptor. -/
theorem Effect.removeList (he : Effect cfg a s s') {e : Fd × Conn} (h : e ∈ s'.removeList) :
    e ∈ s.removeList ∨ ∃ c cl, LiveClient s c cl ∧ e = (cl.socketFd, cl.conn) := by
  cases he with
  | takeRemovals => cases h
  | enter hname ht hfull =>
    rw [enterGame_eq, onTile, (addPlayer_same _ _ _).rest] at h
    exact Or.inl h
  | @die _ chance i c cl pl hi hcl hpl hfood =>
    rcases (gamePlayerDie_deceased cfg s c cl hfood).removeList with h' | h'
    · rw [h'] at h; exact Or.inl h
    · rw [h'] at h
      rcases List.mem_append.1 h with h | h
      · exact Or.inl h
      · exact Or.inr ⟨c, cl, ⟨mem_of_getElem? hi, hcl⟩, List.mem_singleton.1 h⟩
  | @move _ chance i p q pl ql hpl hql =>
    rw [(movePlayer_same s p (stepAhead s ql.pos ql.dir)).rest] at h
    exact Or.inl h
  | _ => exact Or.inl h

/-- A claim after a write was there before, or a login makes it. -/
private theorem Effect.claims (he : Effect cfg a s s') {fd : Fd} {conn : Conn} (h : s'.Claims fd conn) :
    s.Claims fd conn ∨ a.sender = some (conn, fd) := by
  rcases h with h | ⟨c, cl', hc, rfl, rfl⟩
  · rcases he.removeList h with h | ⟨c, cl, hc, h⟩
    · exact Or.inl (Or.inl h)
    · obtain ⟨rfl, rfl⟩ := Prod.mk.inj h
      exact Or.inl (Or.inr ⟨c, cl, hc, rfl, rfl⟩)
  · rcases he.liveClient hc with ⟨cl, hc, hid⟩ | ⟨conn, fd, teamName, draw, rfl, -, -, -, rfl⟩
    · obtain ⟨hfd, -, hconn⟩ := Client.identity_eq hid
      exact Or.inl (Or.inr ⟨c, cl, hc, hfd.symm, hconn.symm⟩)
    · exact Or.inr rfl

private theorem gameStep_claims (hwf : BuffersWF s) (h : gameStep cfg s a = some s') {fd : Fd} {conn : Conn}
    (hclaim : s'.Claims fd conn) : s.Claims fd conn ∨ a.sender = some (conn, fd) := by
  have heff := gameStep_effects hwf h
  clear h
  induction heff with
  | refl => exact Or.inl hclaim
  | tail _ he ih =>
    rcases he.claims hclaim with hclaim | hsender
    · exact ih hclaim
    · exact Or.inr hsender

/-! ### Claims in the machine -/

/-- The connection owns the descriptor, or the game or `m_remove_clients` holds it for that connection. -/
def Machine.Claims (m : Machine) (fd : Fd) (conn : Conn) : Prop :=
  m.owner fd = some conn ∨ m.server.Claims fd conn ∨ ∃ todo, m.phase = .drain todo ∧ (fd, conn) ∈ todo

/-- `accept` returns no descriptor that is queued for removal or that a live client holds. -/
def AcceptFresh (m : Machine) : MachineAction → Prop
  | .accept fd => (∀ e ∈ m.server.removeList, e.1 ≠ fd) ∧ ¬ FdHeld m.server fd
  | _ => True

private theorem GameRun.claims (h : GameRun cfg m act s) (hwf : BuffersWF m.server) {fd : Fd} {conn : Conn}
    (hclaim : s.Claims fd conn) : m.owner fd = some conn ∨ m.server.Claims fd conn := by
  have hheard : ∀ k, m.heard fd = some k → m.owner fd = some k := by
    intro k hk
    unfold Machine.heard at hk
    split at hk
    · exact hk
    · cases hk
  refine (h.invariant (I := fun s => BuffersWF s ∧ ∀ k, s.Claims fd k → m.owner fd = some k ∨ m.server.Claims fd k)
    (fun s a s' hstep hin hI => ?_) ⟨hwf, fun _ hk => Or.inr hk⟩).2 conn hclaim
  refine ⟨(gameStep_invariant (I := fun _ => True) (fun _ _ _ _ _ _ => trivial) hI.1 trivial hstep).1, ?_⟩
  intro k hk
  rcases gameStep_claims hI.1 hstep hk with hk | hsender
  · exact hI.2 k hk
  · exact Or.inl (hheard k (hin.heard k fd hsender))

private theorem mem_of_mem_drainOrder {α : Type} {l : List α} {x : α} (h : x ∈ drainOrder l) : x ∈ l := by
  match l, h with
  | [], h => exact h
  | [_], h => exact h
  | _ :: _ :: _, h => exact List.mem_cons_of_mem _ h

/-- What `m_remove_clients` has to do comes from the queue. -/
theorem MachineMove.todo (h : MachineMove cfg m act m') {todo : List (Fd × Conn)} (hphase : m'.phase = .drain todo)
    {e : Fd × Conn} (he : e ∈ todo) :
    e ∈ m.server.removeList ∨ ∃ todo', m.phase = .drain todo' ∧ e ∈ todo' := by
  cases h with
  | scanEnd =>
    cases hphase
    exact Or.inl (mem_of_mem_drainOrder he)
  | remove hphase' =>
    cases hphase
    exact Or.inr ⟨_, hphase', List.mem_cons_of_mem _ he⟩
  | tick | handshakeReady | handshakeFailed | handshakeLost | welcomed | refused => exact Or.inr ⟨_, hphase, he⟩
  | _ => cases hphase

/-- A claim after a step was there before, or `accept` makes it. -/
private theorem machineStep_claims (hwf : BuffersWF m.server) (h : machineStep cfg m act = some m') {fd : Fd}
    {conn : Conn} (hclaim : m'.Claims fd conn) :
    m.Claims fd conn ∨ (act = .accept fd ∧ conn = m.nextConn ∧ m.owner fd = none) := by
  rcases hclaim with hown | hclaim | ⟨todo, hphase, he⟩
  · rcases (machineStep_move h).owner hown with hown | hnew
    · exact Or.inl (Or.inl hown)
    · exact Or.inr hnew
  · rcases (machineStep_server h).claims hwf hclaim with hown | hclaim
    · exact Or.inl (Or.inl hown)
    · exact Or.inl (Or.inr (Or.inl hclaim))
  · rcases (machineStep_move h).todo hphase he with he | htodo
    · exact Or.inl (Or.inr (Or.inl (Or.inl he)))
    · exact Or.inl (Or.inr (Or.inr htodo))

/-- All claims on a descriptor are for one connection. -/
def Machine.Settled (m : Machine) : Prop := ∀ fd k k', m.Claims fd k → m.Claims fd k' → k = k'

theorem Machine.Settled.step (h : m.Settled) (hwf : BuffersWF m.server) (hG : AcceptFresh m act)
    (hstep : machineStep cfg m act = some m') : m'.Settled := by
  have hfresh : ∀ fd k, act = .accept fd → m.owner fd = none → ¬ m.Claims fd k := by
    rintro fd k rfl hclosed (hown | (hqueued | ⟨c, cl, hc, hfd, -⟩) | ⟨todo, hphase, -⟩)
    · rw [hclosed] at hown; cases hown
    · exact hG.1 _ hqueued rfl
    · exact hG.2 ⟨c, cl, hc, hfd⟩
    · cases machineStep_move hstep with
      | accept hphase' => rw [hphase] at hphase'; cases hphase'
  intro fd k k' hk hk'
  rcases machineStep_claims hwf hstep hk with hk | ⟨hact, rfl, hclosed⟩
  · rcases machineStep_claims hwf hstep hk' with hk' | ⟨hact, rfl, hclosed⟩
    · exact h fd k k' hk hk'
    · exact absurd hk (hfresh fd k hact hclosed)
  · rcases machineStep_claims hwf hstep hk' with hk' | ⟨-, rfl, -⟩
    · exact absurd hk' (hfresh fd k' hact hclosed)
    · rfl

/-! ### Removals -/

/-- `game_kill_player` zeroes the player of the first client with the descriptor, and no other. -/
private theorem gameKillPlayer_vitals {fd : Fd} {p : Addr} (h : (gameKillPlayer s fd).vitalsOf p ≠ s.vitalsOf p) :
    ∃ c cl, LiveClient s c cl ∧ cl.socketFd = fd ∧ cl.player = p := by
  unfold gameKillPlayer at h
  split at h
  · exact absurd rfl h
  · rename_i c hc
    split at h
    · exact absurd rfl h
    · rename_i cl hcl
      split at h
      · exact absurd rfl h
      · obtain ⟨hmem, cl', hcl', hfd⟩ := gameGetClientFromFd_some hc
        obtain rfl := Option.some.inj (hcl.symm.trans hcl')
        refine ⟨c, cl, ⟨List.reduceOption_mem_iff.2 hmem, hcl⟩, hfd, ?_⟩
        by_contra hp
        exact h ((SameControl.modPlayer s cl.player (f := fun r =>
          { r with dieTime := 0, inv := { r.inv with nourriture := 0 } }) fun _ => rfl).vitals p (Ne.symm hp))

/-- When `m_remove_clients` removes the descriptor that the death of a client of `conn` has queued, it closes no
connection but `conn` and kills no player but those of `conn`. -/
def RemovesOwn (cfg : Config) (m : Machine) : Prop :=
  ∀ fd conn rest m', m.phase = .drain ((fd, conn) :: rest) → machineStep cfg m .remove = some m' →
    (∀ d k, m.owner d = some k → m'.owner d ≠ some k → k = conn) ∧
    ∀ c cl, LiveClient m.server c cl → m'.server.vitalsOf cl.player ≠ m.server.vitalsOf cl.player → cl.conn = conn

private theorem Machine.Settled.removesOwn (h : m.Settled) (hreg : Registered m.server) : RemovesOwn cfg m := by
  intro fd conn rest m' hphase hstep
  have hqueued : m.Claims fd conn := Or.inr (Or.inr ⟨_, hphase, List.mem_cons_self⟩)
  cases machineStep_move hstep with
  | remove hphase' =>
    obtain ⟨he, -⟩ := List.cons.inj (Phase.drain.inj (hphase.symm.trans hphase'))
    obtain ⟨rfl, -⟩ := Prod.mk.inj he
    constructor
    · intro d k hown hclosed
      by_cases hd : d = fd
      · subst hd
        exact h d k conn (Or.inl hown) hqueued
      · exact absurd (by rw [← hown]; exact Function.update_of_ne hd none m.owner) hclosed
    · intro c cl hc hkilled
      obtain ⟨d, dl, hd, hfd, hplayer⟩ := gameKillPlayer_vitals hkilled
      have hk : m.server.clientKey c = some (cl.socketFd, cl.player) := by rw [Server.clientKey, hc.heap]; rfl
      have hk' : m.server.clientKey d = some (dl.socketFd, cl.player) := by
        rw [Server.clientKey, hd.heap, ← hplayer]; rfl
      obtain rfl := hreg.distinct c hc.live d hd.live _ _ _ hk hk'
      obtain rfl := Option.some.inj (hc.heap.symm.trans hd.heap)
      exact h fd cl.conn conn (Or.inr (Or.inl (Or.inr ⟨c, cl, hc, hfd, rfl⟩))) hqueued

/-- At the start nothing is claimed but the listening socket. -/
private theorem settled_init (width height : Nat) (teams : List String) (nbClients : Nat)
    (counts : Nat → InventoryType → Nat) : (machineInit cfg width height teams nbClients counts).Settled := by
  have howned : ∀ {fd k}, (machineInit cfg width height teams nbClients counts).Claims fd k →
      (machineInit cfg width height teams nbClients counts).owner fd = some k := by
    rintro fd k (hown | (hqueued | ⟨c, cl, hc, -⟩) | ⟨todo, hphase, -⟩)
    · exact hown
    · cases hqueued
    · cases hc.heap
    · cases hphase
  exact fun fd k k' hk hk' => Option.some.inj ((howned hk).symm.trans (howned hk'))

/-- In every run in which `accept` returns no descriptor that is queued for removal or that a live client holds,
removals close and kill the connection they were queued for only. -/
theorem removals_close_own (cfg : Config) (width height : Nat) (teams : List String) (nbClients : Nat)
    (counts : Nat → InventoryType → Nat) (as : List MachineAction) {m : Machine}
    (hG : Guarded (machineStep cfg) AcceptFresh (machineInit cfg width height teams nbClients counts) as)
    (h : run (machineStep cfg) (machineInit cfg width height teams nbClients counts) as = some m) :
    RemovesOwn cfg m := by
  obtain ⟨-, hreg, hsettled⟩ : BuffersWF m.server ∧ Registered m.server ∧ m.Settled :=
    hG.invariant (I := fun m => BuffersWF m.server ∧ Registered m.server ∧ m.Settled)
      (fun m act m' hstep hG hI => ⟨(machineStep_server hstep).buffersWF hI.1,
        (machineStep_server hstep).registered hI.1 hI.2.1, hI.2.2.step hI.1 hG hstep⟩) h
      ⟨buffersWF_init _ _ _, registered_init _ _ _ _ _, settled_init _ _ _ _ _⟩
  exact hsettled.removesOwn hreg

/-- A player logs in, leaves and dies; the next connection gets a descriptor of its own. -/
def orderlyRemoval : List MachineAction :=
  scanPass [3] [.accept 4] 0 ++ handshakePass ++ scanPass [4] [.receive loginMessage ⟨0, 0, 0⟩] 0 ++
    scanPass [4] [.receive .closed ⟨0, 0, 0⟩] 0 ++ [.lookupEnd, .select [3], .accept 5, .scanEnd]

/-- A test for `AcceptFresh`. -/
def freshTest (m : Machine) : MachineAction → Bool
  | .accept fd => m.server.removeList.all (fun e => e.1 != fd) && (m.server.gameGetClientFromFd fd).isNone
  | _ => true

private theorem acceptFresh_of_test (m : Machine) (act : MachineAction) (h : freshTest m act) : AcceptFresh m act := by
  cases act with
  | accept fd =>
    rw [freshTest, Bool.and_eq_true, List.all_eq_true, Option.isNone_iff_eq_none] at h
    refine ⟨fun e he => bne_iff_ne.1 (h.1 e he), fun hheld => ?_⟩
    rw [fdHeld_iff, h.2] at hheld
    cases hheld
  | _ => exact trivial

theorem removals_close_own_orderly : ∃ m, run (machineStep shippedConfig) shippedMachine orderlyRemoval = some m ∧
    m.phase = .drain [(4, 1)] ∧ RemovesOwn shippedConfig m := by
  have hrun : (run (machineStep shippedConfig) shippedMachine orderlyRemoval).map Machine.phase =
      some (.drain [(4, 1)]) := by decide +kernel
  have hfresh : testGuard (machineStep shippedConfig) freshTest shippedMachine orderlyRemoval := by decide +kernel
  obtain ⟨m, hm, hphase⟩ := Option.map_eq_some_iff.1 hrun
  exact ⟨m, hm, hphase, removals_close_own shippedConfig 1 1 _ _ _ _ (.of_test acceptFresh_of_test hfresh) hm⟩

/-- The same, but the next connection gets the number that the first one has left and that its player's death has
queued. -/
def reusedDescriptor : List MachineAction :=
  scanPass [3] [.accept 4] 0 ++ handshakePass ++ scanPass [4] [.receive loginMessage ⟨0, 0, 0⟩] 0 ++
    scanPass [4] [.receive .closed ⟨0, 0, 0⟩] 0 ++ [.lookupEnd, .select [3], .accept 4, .scanEnd]

/-- The removal queued for connection 1 closes connection 2. -/
theorem reused_descriptor_closed : ∃ m, run (machineStep shippedConfig) shippedMachine reusedDescriptor = some m ∧
    ¬ RemovesOwn shippedConfig m := by
  have hrun : (run (machineStep shippedConfig) shippedMachine reusedDescriptor).map
      (fun m => (m.phase, m.owner 4, (machineStep shippedConfig m .remove).map fun m' => m'.owner 4)) =
      some (.drain [(4, 1)], some 2, some none) := by decide +kernel
  obtain ⟨m, hm, he⟩ := Option.map_eq_some_iff.1 hrun
  obtain ⟨hphase, he⟩ := Prod.mk.inj he
  obtain ⟨hown, hremove⟩ := Prod.mk.inj he
  obtain ⟨m', hm', hclosed⟩ := Option.map_eq_some_iff.1 hremove
  refine ⟨m, hm, fun howns => ?_⟩
  have := (howns 4 1 [] m' hphase hm').1 4 2 hown (by rw [hclosed]; simp)
  cases this

end Zappy

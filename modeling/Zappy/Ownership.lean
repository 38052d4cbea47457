import Zappy.Capacity

/-!
# Whose events a buffer holds

Commands are queued for the first client with the descriptor they came from, and the completion of an incantation
for the first client with the descriptor of the player.  As long as no login joins a team on a descriptor that a
live client holds, both find the client of the player, and every queued event is about the player of its own
client.  `game_register_player` does not look for such a client, and a second login breaks this.
-/

namespace Zappy

open LinkedList Relation Run Slots

variable {cfg : Config} {a : GameAction} {s s' : Server}

/-- `cl` is the record of a client in the table. -/
structure LiveClient (s : Server) (c : Addr) (cl : Client) : Prop where
  live : c ∈ s.live
  heap : s.clientHeap c = some cl

/-- What a login fixes of a client: the descriptor, the player and the connection. -/
def Client.identity (cl : Client) : Fd × Addr × Conn := (cl.socketFd, cl.player, cl.conn)

theorem Client.identity_eq {cl cl' : Client} (h : cl'.identity = cl.identity) :
    cl'.socketFd = cl.socketFd ∧ cl'.player = cl.player ∧ cl'.conn = cl.conn := by
  simpa only [Client.identity, Prod.mk.injEq] using h

/-- A login to this team finds a place in it. -/
def MayJoin (s : Server) (teamName : String) : Prop :=
  ∃ teamId t, gameGetTeamId s teamName = some teamId ∧ s.teams[teamId]? = some t ∧ t.currentPlayers < t.maxPlayers

/-- A live client holds the descriptor. -/
def FdHeld (s : Server) (fd : Fd) : Prop := ∃ c cl, LiveClient s c cl ∧ cl.socketFd = fd

/-- A login that joins a team comes on a descriptor that no live client holds. -/
def LoginOnce (s : Server) : GameAction → Prop
  | .register _ fd teamName _ => MayJoin s teamName → ¬ FdHeld s fd
  | _ => True

/-- No two live clients hold the same descriptor. -/
def UniqueFds (s : Server) : Prop :=
  ∀ c d cl dl, LiveClient s c cl → LiveClient s d dl → cl.socketFd = dl.socketFd → c = d

theorem fdHeld_iff {fd : Fd} : FdHeld s fd ↔ (s.gameGetClientFromFd fd).isSome := by
  constructor
  · rintro ⟨c, cl, hc, hfd⟩
    have hk : s.clientKey c = some (fd, cl.player) := by simp [Server.clientKey, hc.heap, hfd]
    obtain ⟨d, hd⟩ := gameGetClientFromFd_isSome hc.live hk
    rw [hd]
    rfl
  · intro h
    obtain ⟨c, hc⟩ := Option.isSome_iff_exists.1 h
    obtain ⟨hmem, cl, hcl, hfd⟩ := gameGetClientFromFd_some hc
    exact ⟨c, cl, ⟨List.reduceOption_mem_iff.2 hmem, hcl⟩, hfd⟩

/-- A test for `LoginOnce` that looks at the descriptor only. -/
def loginTest (s : Server) : GameAction → Bool
  | .register _ fd _ _ => (s.gameGetClientFromFd fd).isNone
  | _ => true

private theorem loginOnce_of_test (s : Server) (a : GameAction) (h : loginTest s a) : LoginOnce s a := by
  cases a with
  | register conn fd teamName draw =>
    intro _ hheld
    rw [fdHeld_iff] at hheld
    rw [loginTest, Option.isNone_iff_eq_none] at h
    rw [h] at hheld
    cases hheld
  | _ => exact trivial

/-! ### Clients come and go -/

private theorem live_set {clients : List (Option Addr)} {i : Nat} {new : Option Addr} {c : Addr}
    (h : c ∈ (clients.set i new).reduceOption) : c ∈ clients.reduceOption ∨ new = some c := by
  rw [List.reduceOption_mem_iff] at h ⊢
  rcases List.mem_or_eq_of_mem_set h with h | h
  · exact Or.inl h
  · exact Or.inr h.symm

theorem Deceased.live {c : Addr} {cl : Client} (h : Deceased s s' c cl) {d : Addr} (hd : d ∈ s'.live) :
    d ∈ s.live := by
  rcases h.clients with ⟨-, h'⟩ | ⟨i, -, h'⟩
  · rwa [Server.live, h'] at hd
  · rw [Server.live, h'] at hd
    rcases live_set hd with hd | hd
    · exact hd
    · cases hd

/-- The client that `game_register_player` adds, and no other new one. -/
theorem enterGame_liveClient {conn : Conn} {fd : Fd} {teamId : Nat} {draw : StartDraw} {c : Addr} {cl : Client}
    (h : LiveClient (enterGame cfg s conn fd teamId draw) c cl) : (c ≠ s.nextAddr ∧ LiveClient s c cl) ∨
      (c = s.nextAddr ∧ cl = { socketFd := fd, player := s.nextAddr + 1, conn := conn }) := by
  obtain ⟨hlive, hheap⟩ := h
  rw [enterGame_eq] at hlive hheap
  simp only [onTile_clientHeap, allocPlayer, Function.update_apply] at hheap
  split at hheap
  · rename_i hc
    exact Or.inr ⟨hc, (Option.some.inj hheap).symm⟩
  · rename_i hc
    refine Or.inl ⟨hc, ?_, hheap⟩
    simp only [Server.live, addClientToServer] at hlive
    cases hfree : s.clients.findIdx? fun slot => slot == none with
    | none => simpa only [Server.live, hfree, Option.map_none, Option.getD_none] using hlive
    | some i =>
      simp only [hfree, Option.map_some, Option.getD_some] at hlive
      rcases live_set hlive with h | h
      · exact h
      · exact absurd (Option.some.inj h).symm hc

theorem setClientBuffer_liveClient {c d : Addr} {cl dl : Client} {b : EventBuffer} (hcl : s.clientHeap c = some cl)
    (h : LiveClient (s.setClientBuffer c b) d dl) :
    (d ≠ c ∧ LiveClient s d dl) ∨ (d = c ∧ LiveClient s c cl ∧ dl = { cl with eventBuffer := b }) := by
  obtain ⟨hlive, hheap⟩ := h
  rw [setClientBuffer_heap b hcl] at hheap
  split at hheap
  · rename_i hd
    exact Or.inr ⟨hd, ⟨hd ▸ hlive, hcl⟩, (Option.some.inj hheap).symm⟩
  · rename_i hd
    exact Or.inl ⟨hd, hlive, hheap⟩

/-- A live client after a write was there before, with another buffer at most, or it has just logged in. -/
theorem Effect.liveClient (he : Effect cfg a s s') {c : Addr} {cl' : Client} (h : LiveClient s' c cl') :
    (∃ cl, LiveClient s c cl ∧ cl'.identity = cl.identity) ∨
    ∃ conn fd teamName draw, a = .register conn fd teamName draw ∧ MayJoin s teamName ∧ conn ∈ s'.logins ∧
      c = s.nextAddr ∧ cl' = { socketFd := fd, player := s.nextAddr + 1, conn := conn } := by
  have hbuffer : ∀ {d dl b}, s.clientHeap d = some dl → LiveClient (s.setClientBuffer d b) c cl' →
      ∃ cl, LiveClient s c cl ∧ cl'.identity = cl.identity := by
    intro d dl b hdl h
    rcases setClientBuffer_liveClient hdl h with ⟨-, h'⟩ | ⟨rfl, h', rfl⟩
    · exact ⟨cl', h', rfl⟩
    · exact ⟨dl, h', rfl⟩
  cases he with
  | enter hname ht hfull =>
    rcases enterGame_liveClient h with ⟨-, h⟩ | ⟨hc, hcl⟩
    · exact Or.inl ⟨cl', h, rfl⟩
    · refine Or.inr ⟨_, _, _, _, rfl, ⟨_, _, hname, ht, hfull⟩, ?_, hc, hcl⟩
      rw [enterGame_eq, onTile, (addPlayer_same _ _ _).rest]
      exact List.mem_append_right _ List.mem_cons_self
  | schedule hc hcl hb => exact Or.inl (hbuffer hcl h)
  | pop hi hcl hcount => exact Or.inl (hbuffer hcl h)
  | clearArg hcl hq => exact Or.inl (hbuffer hcl h)
  | front hpl hc hcl hb => exact Or.inl (hbuffer hcl h)
  | @die _ chance i d dl pl hi hdl hpl hfood =>
    rcases (gamePlayerDie_deceased cfg s d dl hfood).clientHeap c with h' | h'
    · exact Or.inl ⟨cl', ⟨(gamePlayerDie_deceased cfg s d dl hfood).live h.live, h'.symm.trans h.heap⟩, rfl⟩
    · exact absurd (h'.2.symm.trans h.heap) (by simp)
  | @move _ chance i p q pl ql hpl hql =>
    have hrest := (movePlayer_same s p (stepAhead s ql.pos ql.dir)).rest
    refine Or.inl ⟨cl', ⟨?_, ?_⟩, rfl⟩
    · have := h.live; rw [hrest] at this; exact this
    · have := h.heap; rw [hrest] at this; exact this
  | _ => exact Or.inl ⟨cl', ⟨h.live, h.heap⟩, rfl⟩

private theorem Effect.uniqueFds (he : Effect cfg a s s') (hL : LoginOnce s a) (h : UniqueFds s) : UniqueFds s' := by
  intro c d cl dl hc hd hfd
  rcases he.liveClient hc with ⟨cl₀, hc₀, hcl⟩ | ⟨conn, fd, teamName, draw, ha, hjoin, -, hcn, rfl⟩
  · rcases he.liveClient hd with ⟨dl₀, hd₀, hdl⟩ | ⟨conn, fd, teamName, draw, ha, hjoin, -, -, rfl⟩
    · refine h c d cl₀ dl₀ hc₀ hd₀ ?_
      rw [← (Client.identity_eq hcl).1, hfd, (Client.identity_eq hdl).1]
    · subst ha
      exact absurd ⟨c, cl₀, hc₀, (Client.identity_eq hcl).1.symm.trans hfd⟩ (hL hjoin)
  · rcases he.liveClient hd with ⟨dl₀, hd₀, hdl⟩ | ⟨_, _, _, _, _, _, -, hdn, _⟩
    · subst ha
      exact absurd ⟨d, dl₀, hd₀, (Client.identity_eq hdl).1.symm.trans hfd.symm⟩ (hL hjoin)
    · rw [hcn, hdn]

theorem UniqueFds.setBuffer (h : UniqueFds s) {c : Addr} {cl : Client} (b : EventBuffer)
    (hcl : s.clientHeap c = some cl) : UniqueFds (s.setClientBuffer c b) := by
  have hold : ∀ {d dl}, LiveClient (s.setClientBuffer c b) d dl → ∃ dl₀, LiveClient s d dl₀ ∧
      dl₀.socketFd = dl.socketFd := by
    intro d dl hd
    rcases setClientBuffer_liveClient hcl hd with ⟨-, hd'⟩ | ⟨rfl, hd', rfl⟩
    · exact ⟨dl, hd', rfl⟩
    · exact ⟨cl, hd', rfl⟩
  intro d e dl el hd he hfd
  obtain ⟨dl₀, hd₀, hdl⟩ := hold hd
  obtain ⟨el₀, he₀, hel⟩ := hold he
  exact h d e dl₀ el₀ hd₀ he₀ (by rw [hdl, hel, hfd])

/-- A guarded login is one write, and all other steps are unguarded. -/
theorem UniqueFds.step (h : UniqueFds s) (hwf : BuffersWF s) (hL : LoginOnce s a)
    (hstep : gameStep cfg s a = some s') : UniqueFds s' := by
  have hother : (∀ conn fd teamName draw, a ≠ .register conn fd teamName draw) → UniqueFds s' := by
    intro ha
    have hfree : ∀ s₁, LoginOnce s₁ a := by
      intro s₁
      cases a with
      | register conn fd teamName draw => exact absurd rfl (ha _ _ _ _)
      | _ => exact trivial
    have heff := gameStep_effects hwf hstep
    clear hL hstep
    induction heff with
    | refl => exact h
    | tail _ he ih => exact he.uniqueFds (hfree _) ih
  cases a with
  | register conn fd teamName draw =>
    cases hret : (gameRegisterPlayer cfg s conn fd teamName draw).1 with
    | success =>
      obtain ⟨teamId, t, hname, ht, hfull, hs'⟩ := gameRegisterPlayer_success hret
      cases hstep
      rw [hs']
      exact (Effect.enter hname ht hfull).uniqueFds hL h
    | error =>
      cases hstep
      rw [gameRegisterPlayer_error hret]
      exact h
  | _ => exact hother (by simp)

/-! ### Queued events -/

section EventsOf

variable {own : Addr → Conn → Option Addr → Conn → Prop}

/-- Every event queued for a live client stands in the relation `own` to the player and the connection of that
client, through the player it is about and the connection it came from. -/
def EventsOf (own : Addr → Conn → Option Addr → Conn → Prop) (s : Server) : Prop :=
  ∀ c cl, LiveClient s c cl → ∀ ev ∈ cl.eventBuffer.queued, own cl.player cl.conn ev.data ev.origin

/-- A command is received on behalf of a client that may own it. -/
def Receives (own : Addr → Conn → Option Addr → Conn → Prop) (s : Server) : GameAction → Prop
  | .execute conn fd _ _ => ∀ c cl, LiveClient s c cl → cl.socketFd = fd →
      own cl.player cl.conn (some cl.player) conn
  | _ => True

theorem EventsOf.congr (h : EventsOf own s) (hclients : s'.clients = s.clients)
    (hheap : s'.clientHeap = s.clientHeap) : EventsOf own s' := by
  intro c cl hc
  refine h c cl ⟨?_, by rw [← hheap]; exact hc.heap⟩
  have := hc.live
  rwa [Server.live, hclients] at this

/-- Another buffer for a client, all of whose events the client owns. -/
theorem EventsOf.setBuffer (h : EventsOf own s) {c : Addr} {cl : Client} {b : EventBuffer}
    (hcl : s.clientHeap c = some cl)
    (hb : LiveClient s c cl → ∀ ev ∈ b.queued, own cl.player cl.conn ev.data ev.origin) :
    EventsOf own (s.setClientBuffer c b) := by
  intro d dl hd
  rcases setClientBuffer_liveClient hcl hd with ⟨-, hd⟩ | ⟨-, hc, rfl⟩
  · exact h d dl hd
  · exact hb hc

private theorem Effect.eventsOf (he : Effect cfg a s s') (ha : ∀ chance i, a ≠ .playSlot chance i) (hwf : BuffersWF s)
    (hrecv : Receives own s a) (h : EventsOf own s) : EventsOf own s' := by
  cases he with
  | enter hname ht hfull =>
    intro c cl hc
    rcases enterGame_liveClient hc with ⟨-, hc⟩ | ⟨-, rfl⟩
    · exact h c cl hc
    · simp
  | @schedule _ conn fd cmd arg c cl delay type copy b hc hcl hb =>
    obtain ⟨-, cl', hcl', hfd⟩ := gameGetClientFromFd_some hc
    obtain rfl := Option.some.inj (hcl.symm.trans hcl')
    obtain ⟨-, -, -, hq⟩ := schedule_spec (hwf.client c cl hcl) hb
    refine h.setBuffer hcl fun hc ev hev => ?_
    rw [hq, List.mem_append, List.mem_singleton] at hev
    rcases hev with hev | rfl
    · exact h c cl hc ev hev
    · exact hrecv c cl hc hfd
  | quiet => exact h.congr rfl rfl
  | takeRemovals => exact h.congr rfl rfl
  | serverBuffer b hb => exact h.congr rfl rfl
  | kill hc hcl hpl => exact h.congr rfl rfl
  | spawn n counts => exact h.congr rfl rfl
  | _ => exact absurd rfl (ha _ _)

theorem Receives.effect (he : Effect cfg a s s') (h : Receives own s a) : Receives own s' a := by
  cases a with
  | execute conn fd cmd arg =>
    intro c cl hc hfd
    rcases he.liveClient hc with ⟨cl₀, hc₀, hcl⟩ | ⟨_, _, _, _, ha, _⟩
    · obtain ⟨hs, hp, hk⟩ := Client.identity_eq hcl
      rw [hp, hk]
      exact h c cl₀ hc₀ (hs.symm.trans hfd)
    · cases ha
  | _ => exact trivial

theorem EventsOf.of_effects (he : Effects cfg a s s') (ha : ∀ chance i, a ≠ .playSlot chance i) (hwf : BuffersWF s)
    (hrecv : Receives own s a) (h : EventsOf own s) : EventsOf own s' := by
  refine (?_ : BuffersWF s' ∧ Receives own s' a ∧ EventsOf own s').2.2
  induction he with
  | refl => exact ⟨hwf, hrecv, h⟩
  | tail _ he ih => exact ⟨he.buffersWF ih.1, .effect he ih.2.1, he.eventsOf ha ih.1 ih.2.1 ih.2.2⟩

/-- The lookup by the descriptor of a player finds the client of that player. -/
theorem UniqueFds.lookup_own (h : UniqueFds s) (hreg : Registered s) {c d : Addr} {cl : Client} {pl : Player}
    (hc : LiveClient s c cl) (hpl : s.playerHeap cl.player = some pl) (hd : s.gameGetClientFromFd pl.id = some d) :
    d = c := by
  obtain ⟨hmem, dl, hdl, hfd⟩ := gameGetClientFromFd_some hd
  obtain ⟨cl', pl', hcl', hpl', hid⟩ := hreg.client_heap hc.live
  obtain rfl := Option.some.inj (hc.heap.symm.trans hcl')
  obtain rfl := Option.some.inj (hpl.symm.trans hpl')
  exact h d c dl cl ⟨List.reduceOption_mem_iff.2 hmem, hdl⟩ hc (hfd.trans hid)

/-- The completion of an incantation is queued for the client whose command it concludes. -/
theorem EventsOf.callback (hown : ∀ p k data origin, own p k data origin → data = some p)
    (h : EventsOf own s) (hwf : BuffersWF s) (hreg : Registered s) (huniq : UniqueFds s) {c : Addr} {cl : Client}
    (hc : LiveClient s c cl) {ev : Event} (hev : own cl.player cl.conn ev.data ev.origin) {chance : Chance}
    (hrun : runCallback cfg chance ev s = some s') : EventsOf own s' := by
  unfold runCallback at hrun
  split at hrun
  · cases hrun; exact h
  · cases hrun
    exact .of_effects (gameSpawnResources_effects (a := .flush) _ _) (by simp) hwf trivial h
  · rename_i type _
    simp only [Option.bind_eq_some_iff] at hrun
    obtain ⟨p, hdata, pl, hpl, hrun⟩ := hrun
    obtain rfl : p = cl.player := Option.some.inj (hdata.symm.trans (hown _ _ _ _ hev))
    by_cases htype : type = .incantation
    · subst htype
      obtain rfl | ⟨-, rfl⟩ := commandIncantation_cases hrun
      · exact h.congr rfl rfl
      · have hpay : EventsOf own (payRitual s cl.player pl) := h.congr rfl rfl
        rcases queueCompletion_cases cfg (payRitual s cl.player pl) cl.player pl ev.origin with
          ⟨-, h'⟩ | ⟨d, dl, hd, hdl, s₂, h', h₂⟩
        · rw [h']; exact hpay
        · rw [h']
          -- the completion goes to the first client on the descriptor, which is the one whose event this is
          obtain rfl : d = c := huniq.lookup_own hreg hc hpl hd
          obtain rfl := Option.some.inj (hdl.symm.trans hc.heap)
          rcases h₂ with rfl | ⟨b, hb, rfl⟩
          · exact hpay.congr rfl rfl
          · obtain ⟨-, -, -, hq⟩ := scheduleFront_spec (hwf.client d dl hc.heap) hb
            have hdup : EventsOf own ((payRitual s dl.player pl).strdup (snprintf 12 pl.level)).2 :=
              hpay.congr rfl rfl
            refine EventsOf.congr (hdup.setBuffer (b := b) hc.heap fun _ ev' hev' => ?_) rfl rfl
            rw [hq, List.mem_cons] at hev'
            rcases hev' with rfl | hev'
            · rw [← hdata]; exact hev
            · exact h d dl hc ev' hev'
    · have hctl := runCommand_control htype hrun
      exact h.congr (by rw [hctl.rest]) (by rw [hctl.rest])
  · simp only [Option.bind_eq_some_iff] at hrun
    obtain ⟨p, -, pl, -, hrun⟩ := hrun
    have hctl := commandRealIncantation_control hrun
    exact h.congr (by rw [hctl]) (by rw [hctl])

theorem EventsOf.process (hown : ∀ p k data origin, own p k data origin → data = some p)
    (h : EventsOf own s) (hwf : BuffersWF s) (hreg : Registered s) (huniq : UniqueFds s) {c : Addr} {cl : Client}
    (hc : LiveClient s c cl) {chance : Chance} (hrun : processClient cfg chance c s = some s') : EventsOf own s' := by
  rcases processClient_cases (hwf.client c cl hc.heap) hc.heap hrun with rfl | ⟨ev, hq, hcount, -, s₂, hcall, hend⟩
  · exact h
  · have hpop : EventsOf own (s.setClientBuffer c cl.eventBuffer.pop) :=
      h.setBuffer hc.heap fun _ ev' hev' => h c cl hc ev' (by rw [hq]; exact List.mem_cons_of_mem _ hev')
    have hwf' := hwf.setClientBuffer hc.heap (EventBuffer.pop_wf (hwf.client c cl hc.heap) hcount)
    have hc' : LiveClient (s.setClientBuffer c cl.eventBuffer.pop) c { cl with eventBuffer := cl.eventBuffer.pop } :=
      ⟨hc.live, by rw [setClientBuffer_heap _ hc.heap, if_pos rfl]⟩
    have h₂ := hpop.callback hown hwf' (hreg.setBuffer _ hc.heap) (huniq.setBuffer _ hc.heap) hc'
      (h c cl hc ev (by rw [hq]; exact List.mem_cons_self)) hcall
    rcases hend with rfl | ⟨addr, cl', j, hcl', -, hq', rfl⟩
    · exact h₂
    · refine EventsOf.congr (h₂.setBuffer (b := cl'.eventBuffer.clearArg j) hcl' fun hc₂ ev' hev' => ?_) rfl rfl
      rw [hq'] at hev'
      exact h₂ c cl' hc₂ ev' hev'

theorem EventsOf.step (hown : ∀ p k data origin, own p k data origin → data = some p)
    (h : EventsOf own s) (hwf : BuffersWF s) (hreg : Registered s) (huniq : UniqueFds s) (hrecv : Receives own s a)
    (hstep : gameStep cfg s a = some s') : EventsOf own s' := by
  have hother : (∀ chance i, a ≠ .playSlot chance i) → EventsOf own s' := fun ha =>
    .of_effects (gameStep_effects hwf hstep) ha hwf hrecv h
  cases a with
  | playSlot chance i =>
    cases gamePlaySlot_cases hstep with
    | empty => exact h
    | eats => exact h.congr rfl rfl
    | @dies c cl pl hat hdead hfood =>
      intro d dl hd
      have hdeath := gamePlayerDie_deceased cfg s c cl hfood
      rcases hdeath.clientHeap d with h' | h'
      · exact h d dl ⟨hdeath.live hd.live, h'.symm.trans hd.heap⟩
      · exact absurd (h'.2.symm.trans hd.heap) (by simp)
    | waits => exact h
    | plays hat halive hdue hrun =>
      exact h.process hown hwf hreg huniq ⟨mem_of_getElem? hat.slot, hat.client⟩ hrun
  | _ => exact hother (by simp)

end EventsOf

/-! ### Runs -/

/-- Each live client has a live player, and its queued events are about that player. -/
def EventsOwned (s : Server) : Prop :=
  ∀ c cl, LiveClient s c cl → ∃ pl, s.playerHeap cl.player = some pl ∧
    ∀ ev ∈ cl.eventBuffer.queued, ev.data = some cl.player

theorem uniqueFds_init (width height : Nat) (teams : List String) (nbClients : Nat)
    (counts : Nat → InventoryType → Nat) : UniqueFds (gameInit cfg width height teams nbClients counts) :=
  fun _ _ _ _ hc => (by cases hc.heap)

theorem eventsOf_init (own : Addr → Conn → Option Addr → Conn → Prop) (width height : Nat) (teams : List String)
    (nbClients : Nat) (counts : Nat → InventoryType → Nat) :
    EventsOf own (gameInit cfg width height teams nbClients counts) :=
  fun _ _ hc => (by cases hc.heap)

/-- In every run each of whose successful logins comes on a descriptor that no live client holds, every queued
event of a live client is about its own live player. -/
theorem queued_events_owned (cfg : Config) (width height : Nat) (teams : List String) (nbClients : Nat)
    (counts : Nat → InventoryType → Nat) (as : List GameAction) {s : Server}
    (hL : Guarded (gameStep cfg) LoginOnce (gameInit cfg width height teams nbClients counts) as)
    (h : run (gameStep cfg) (gameInit cfg width height teams nbClients counts) as = some s) : EventsOwned s := by
  obtain ⟨-, hreg, -, hev⟩ : BuffersWF s ∧ Registered s ∧ UniqueFds s ∧
      EventsOf (fun p _ data _ => data = some p) s := by
    refine hL.invariant (I := fun s => BuffersWF s ∧ Registered s ∧ UniqueFds s ∧
      EventsOf (fun p _ data _ => data = some p) s) (fun s a s' hstep hG hI => ?_) h
      ⟨buffersWF_init _ _ _, registered_init _ _ _ _ _, uniqueFds_init _ _ _ _ _, eventsOf_init _ _ _ _ _ _⟩
    obtain ⟨hwf, hreg, huniq, hev⟩ := hI
    obtain ⟨hwf', hreg'⟩ := gameStep_invariant (I := Registered) (fun _ _ _ he _ h => he.registered h) hwf hreg hstep
    refine ⟨hwf', hreg', huniq.step hwf hG hstep, hev.step (fun _ _ _ _ h => h) hwf hreg huniq ?_ hstep⟩
    cases a with
    | execute conn fd cmd arg => exact fun _ _ _ _ => rfl
    | _ => exact trivial
  intro c cl hc
  obtain ⟨cl', pl, hcl', hpl, -⟩ := hreg.client_heap hc.live
  obtain rfl := Option.some.inj (hc.heap.symm.trans hcl')
  exact ⟨pl, hpl, hev c cl hc⟩

/-- Two players, the second of which has a completion queued. -/
def queuedCompletion : List GameAction :=
  [.register 0 4 "red" ⟨0, 0, 0⟩, .register 1 5 "red" ⟨0, 0, 0⟩, .execute 1 5 "incantation" none, .playSlot {} 1]

theorem queued_events_owned_completion : ∃ s, run (gameStep shippedConfig)
    (gameInit shippedConfig 1 1 ["red"] 2 fun _ _ => 2) queuedCompletion = some s ∧ EventsOwned s := by
  obtain ⟨s, hs⟩ := Option.isSome_iff_exists.1 (show (run (gameStep shippedConfig)
    (gameInit shippedConfig 1 1 ["red"] 2 fun _ _ => 2) queuedCompletion).isSome by decide +kernel)
  have hlogin : testGuard (gameStep shippedConfig) loginTest (gameInit shippedConfig 1 1 ["red"] 2 fun _ _ => 2)
    queuedCompletion := by decide +kernel
  exact ⟨s, hs, queued_events_owned shippedConfig 1 1 _ _ _ _ (.of_test loginOnce_of_test hlogin) hs⟩

/-- The client on descriptor 5 has an incantation queued when its connection logs in again and gets the slot that
the death of the player on descriptor 4 has left, in front of the first one. -/
def secondLogin : List GameAction :=
  [.register 0 4 "red" ⟨0, 0, 0⟩, .register 1 5 "red" ⟨0, 0, 0⟩, .execute 1 5 "incantation" none, .kill 4,
    .playSlot {} 0, .register 1 5 "red" ⟨0, 0, 0⟩, .playSlot {} 1]

/-- The completion is queued for the new client, about the player of the old one. -/
theorem second_login_misplaces_completion : ∃ s, run (gameStep shippedConfig)
    (gameInit shippedConfig 1 1 ["red"] 2 fun _ _ => 2) secondLogin = some s ∧ ¬ EventsOwned s := by
  have hrun : (run (gameStep shippedConfig) (gameInit shippedConfig 1 1 ["red"] 2 fun _ _ => 2) secondLogin).map
      (fun s => (s.clients, (s.clientHeap 4).map fun cl => (cl.player, cl.eventBuffer.queued.map Event.data))) =
      some ([some 4, some 2], some (5, [some 3])) := by decide +kernel
  obtain ⟨s, hs, he⟩ := Option.map_eq_some_iff.1 hrun
  obtain ⟨hclients, hbuffer⟩ := Prod.mk.inj he
  obtain ⟨cl, hcl, hbuffer⟩ := Option.map_eq_some_iff.1 hbuffer
  obtain ⟨hplayer, hdata⟩ := Prod.mk.inj hbuffer
  refine ⟨s, hs, fun howned => ?_⟩
  obtain ⟨pl, -, hev⟩ := howned 4 cl ⟨by simp [Server.live, hclients], hcl⟩
  obtain ⟨ev, hmem, he⟩ := List.mem_map.1 (hdata ▸ List.mem_singleton_self (some 3) :
    some 3 ∈ cl.eventBuffer.queued.map Event.data)
  have := hev ev hmem
  rw [he, hplayer] at this
  cases this

end Zappy

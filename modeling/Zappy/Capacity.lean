import Zappy.Effects
import Zappy.Placement
import Zappy.Lib.Slots
import Mathlib.Algebra.Order.BigOperators.Group.List
import Mathlib.Algebra.BigOperators.Ring.Finset

/-!
# Teams and slots

The counters of the teams and the table of clients count the same players.  The invariant `Registered` reads both
heaps through keys, the fields that a login fixes for good: the socket and the player of a client, the socket and
the team of a player.  Since the teams together have no more places than the table has slots, a login that finds a
place in its team finds a slot, and a death finds the slot and the place it gives up.
-/

namespace Zappy

open LinkedList Run Slots

variable {cfg : Config} {a : GameAction} {s s' : Server}

/-- The clients in the table. -/
def Server.live (s : Server) : List Addr := s.clients.reduceOption

/-- What a login fixes of a client. -/
def Server.clientKey (s : Server) (c : Addr) : Option (Fd × Addr) :=
  (s.clientHeap c).map fun cl => (cl.socketFd, cl.player)

/-- What a login fixes of a player. -/
def Server.playerKey (s : Server) (p : Addr) : Option (Fd × Nat) :=
  (s.playerHeap p).map fun pl => (pl.id, pl.teamId)

/-- The team of the player of a client. -/
def Server.teamOf (s : Server) (c : Addr) : Option Nat :=
  (s.clientKey c).bind fun k => (s.playerKey k.2).map Prod.snd

structure Registered (s : Server) : Prop where
  freshClient : ∀ c, s.nextAddr ≤ c → s.clientKey c = none
  freshPlayer : ∀ p, s.nextAddr ≤ p → s.playerKey p = none
  nodup : s.live.Nodup
  client : ∀ c ∈ s.live, ∃ fd p team, s.clientKey c = some (fd, p) ∧ s.playerKey p = some (fd, team)
  distinct : ∀ c ∈ s.live, ∀ d ∈ s.live, ∀ fd fd' p, s.clientKey c = some (fd, p) → s.clientKey d = some (fd', p) →
    c = d
  owned : ∀ p, (s.playerKey p).isSome → ∃ c ∈ s.live, ∃ fd, s.clientKey c = some (fd, p)
  count : ∀ (i : Nat) (t : Team), s.teams[i]? = some t →
    t.currentPlayers = ((s.live.countP fun c => s.teamOf c = some i : Nat) : Int)
  bound : ∀ (i : Nat) (t : Team), s.teams[i]? = some t → t.currentPlayers ≤ t.maxPlayers
  team : ∀ c ∈ s.live, ∃ i < s.teams.length, s.teamOf c = some i
  room : (s.teams.map Team.maxPlayers).sum ≤ s.clients.length

/-! ### The writes keep the invariant -/

/-- The invariant depends on the table, the teams and the keys only. -/
theorem Registered.congr (h : Registered s) (hclients : s'.clients = s.clients) (hteams : s'.teams = s.teams)
    (hc : s'.clientKey = s.clientKey) (hp : s'.playerKey = s.playerKey) (haddr : s.nextAddr ≤ s'.nextAddr) :
    Registered s' := by
  have hlive : s'.live = s.live := by simp only [Server.live, hclients]
  have hteam : s'.teamOf = s.teamOf := by funext c; simp only [Server.teamOf, hc, hp]
  refine ⟨?_, ?_, ?_, ?_, ?_, ?_, ?_, ?_, ?_, ?_⟩
  · rw [hc]; exact fun c hle => h.freshClient c (Nat.le_trans haddr hle)
  · rw [hp]; exact fun p hle => h.freshPlayer p (Nat.le_trans haddr hle)
  · rw [hlive]; exact h.nodup
  · rw [hlive, hc, hp]; exact h.client
  · rw [hlive, hc]; exact h.distinct
  · rw [hlive, hc, hp]; exact h.owned
  · rw [hlive, hteams, hteam]; exact h.count
  · rw [hteams]; exact h.bound
  · rw [hlive, hteams, hteam]; exact h.team
  · rw [hteams, hclients]; exact h.room

theorem setClientBuffer_clientKey {c : Addr} {cl : Client} (b : EventBuffer) (hcl : s.clientHeap c = some cl) :
    (s.setClientBuffer c b).clientKey = s.clientKey := by
  funext d
  simp only [Server.clientKey, setClientBuffer_heap b hcl]
  split
  · rename_i hd; rw [hd, hcl]; rfl
  · rfl

theorem modPlayer_playerKey {p : Addr} {f : Player → Player} (hid : ∀ r, (f r).id = r.id)
    (hteam : ∀ r, (f r).teamId = r.teamId) : (s.modPlayer p f).playerKey = s.playerKey := by
  funext q
  simp only [Server.playerKey, modPlayer_heap]
  split
  · cases s.playerHeap q <;> simp [hid, hteam]
  · rfl

theorem SameButPlaces.playerKey (h : SameButPlaces s s') : s'.playerKey = s.playerKey := by
  funext q
  have hq := congrArg (Option.map fun r : Player => (r.id, r.teamId)) (h.core q)
  rw [Option.map_map, Option.map_map] at hq
  exact hq

theorem Registered.setBuffer (h : Registered s) {c : Addr} {cl : Client} (b : EventBuffer)
    (hcl : s.clientHeap c = some cl) : Registered (s.setClientBuffer c b) :=
  h.congr rfl rfl (setClientBuffer_clientKey b hcl) rfl (Nat.le_refl _)

theorem Registered.modPlayer (h : Registered s) (p : Addr) {f : Player → Player} (hid : ∀ r, (f r).id = r.id)
    (hteam : ∀ r, (f r).teamId = r.teamId) : Registered (s.modPlayer p f) :=
  h.congr rfl rfl rfl (modPlayer_playerKey hid hteam) (Nat.le_refl _)

theorem Registered.places (h : Registered s) (hsame : SameButPlaces s s') : Registered s' := by
  refine h.congr ?_ ?_ ?_ hsame.playerKey ?_
  · rw [hsame.rest]
  · rw [hsame.rest]
  · unfold Server.clientKey; rw [hsame.rest]
  · rw [hsame.rest]

/-- A client of the table, with its record and that of its player. -/
theorem Registered.client_heap (h : Registered s) {c : Addr} (hc : c ∈ s.live) :
    ∃ cl pl, s.clientHeap c = some cl ∧ s.playerHeap cl.player = some pl ∧ pl.id = cl.socketFd := by
  obtain ⟨fd, p, team, hck, hpk⟩ := h.client c hc
  simp only [Server.clientKey, Server.playerKey, Option.map_eq_some_iff, Prod.mk.injEq] at hck hpk
  obtain ⟨cl, hcl, rfl, rfl⟩ := hck
  obtain ⟨pl, hpl, hid, -⟩ := hpk
  exact ⟨cl, pl, hcl, hpl, hid⟩

theorem teamOf_eq {c : Addr} {cl : Client} {pl : Player} (hcl : s.clientHeap c = some cl)
    (hpl : s.playerHeap cl.player = some pl) : s.teamOf c = some pl.teamId := by
  simp [Server.teamOf, Server.clientKey, Server.playerKey, hcl, hpl]

/-- The slots in use are as many as the players of all teams. -/
private theorem Registered.live_length (h : Registered s) :
    (s.live.length : Int) = (s.teams.map Team.currentPlayers).sum := by
  rw [sum_map_eq_sum_range s.teams Team.currentPlayers _ h.count, ← Nat.cast_sum]
  exact congrArg _ (sum_countP_eq_length h.team).symm

/-- When a team has a free place, the table has a free slot. -/
theorem Registered.free_slot (h : Registered s) {i : Nat} {t : Team} (ht : s.teams[i]? = some t)
    (hfull : t.currentPlayers < t.maxPlayers) : s.live.length < s.clients.length := by
  have hlt : (s.teams.map Team.currentPlayers).sum < (s.teams.map Team.maxPlayers).sum := by
    refine List.sum_lt_sum _ _ (fun u hu => ?_) ⟨t, List.mem_of_getElem? ht, hfull⟩
    obtain ⟨j, hj⟩ := List.getElem?_of_mem hu
    exact h.bound j u hj
  have := h.live_length
  have := h.room
  omega

/-! ### A login -/

/-- What a login leaves behind: a client and a player at new addresses, and one more player in the team. -/
structure Entered (s s' : Server) (fd : Fd) (teamId : Nat) : Prop where
  live : s'.live.Perm (s.nextAddr :: s.live)
  slots : s'.clients.length = s.clients.length
  teams : s'.teams = s.teams.modify teamId fun t =>
    { t with
      players := Function.update t.players t.currentPlayers.toNat fd
      currentPlayers := t.currentPlayers + 1 }
  client : s'.clientKey = Function.update s.clientKey s.nextAddr (some (fd, s.nextAddr + 1))
  player : s'.playerKey = Function.update s.playerKey (s.nextAddr + 1) (some (fd, teamId))
  addr : s'.nextAddr = s.nextAddr + 2

/-- A login that finds a place in its team gets it, and a slot. -/
theorem Registered.entered (h : Registered s) (cfg : Config) (conn : Conn) (fd : Fd) {teamId : Nat} {t : Team}
    (draw : StartDraw) (ht : s.teams[teamId]? = some t) (hfull : t.currentPlayers < t.maxPlayers) :
    Entered s (enterGame cfg s conn fd teamId draw) fd teamId := by
  have hadd : teamAddPlayerToTeam s (newPlayer cfg s fd teamId draw) = some (s.modTeam teamId fun t =>
      { t with
        players := Function.update t.players t.currentPlayers.toNat fd
        currentPlayers := t.currentPlayers + 1 }) := by
    simp [teamAddPlayerToTeam, newPlayer, ht, hfull]
  obtain ⟨i, hi, hfree⟩ := findIdx?_free (h.free_slot ht hfull)
  have hclient : addClientToServer s s.nextAddr = some { s with clients := s.clients.set i (some s.nextAddr) } := by
    unfold addClientToServer; rw [hi]; rfl
  constructor
  case live =>
    rw [enterGame_eq, hclient]
    exact reduceOption_fill hfree
  case slots =>
    rw [enterGame_eq, hclient]
    simp
  case teams => rw [enterGame_eq, hadd]; rfl
  case client =>
    funext c
    rw [enterGame_eq]
    simp only [Server.clientKey, onTile_clientHeap, allocPlayer, Function.update_apply]
    split <;> rfl
  case player =>
    rw [enterGame_eq]
    change (onTile cfg s conn fd teamId draw).playerKey = _
    rw [onTile, (addPlayer_same _ _ _).playerKey]
    funext p
    simp only [Server.playerKey, allocPlayer, Function.update_apply]
    split <;> rfl
  case addr =>
    rw [enterGame_eq]
    exact onTile_nextAddr conn fd teamId draw

namespace Entered

variable {fd : Fd} {teamId : Nat}

private theorem mem_live (he : Entered s s' fd teamId) (c : Addr) : c ∈ s'.live ↔ c = s.nextAddr ∨ c ∈ s.live := by
  rw [he.live.mem_iff, List.mem_cons]

theorem newClient (he : Entered s s' fd teamId) : s'.clientKey s.nextAddr = some (fd, s.nextAddr + 1) := by
  rw [he.client, Function.update_self]

theorem newPlayer (he : Entered s s' fd teamId) : s'.playerKey (s.nextAddr + 1) = some (fd, teamId) := by
  rw [he.player, Function.update_self]

private theorem newTeam (he : Entered s s' fd teamId) : s'.teamOf s.nextAddr = some teamId := by
  simp only [Server.teamOf, he.newClient, Option.bind_some, he.newPlayer, Option.map_some]

/-- The new address is not that of a client in the table. -/
theorem ne_new (h : Registered s) {c : Addr} (hc : c ∈ s.live) : c ≠ s.nextAddr := by
  rintro rfl
  obtain ⟨fd, p, team, hk, -⟩ := h.client _ hc
  rw [h.freshClient _ (Nat.le_refl _)] at hk
  cases hk

theorem oldClient (he : Entered s s' fd teamId) (h : Registered s) {c : Addr} (hc : c ∈ s.live) :
    s'.clientKey c = s.clientKey c := by
  rw [he.client, Function.update_of_ne (ne_new h hc)]

theorem oldPlayer (he : Entered s s' fd teamId) (h : Registered s) {p : Addr} (hp : (s.playerKey p).isSome) :
    s'.playerKey p = s.playerKey p := by
  rw [he.player, Function.update_of_ne]
  rintro rfl
  rw [h.freshPlayer _ (Nat.le_succ _)] at hp
  cases hp

private theorem oldTeam (he : Entered s s' fd teamId) (h : Registered s) {c : Addr} (hc : c ∈ s.live) :
    s'.teamOf c = s.teamOf c := by
  obtain ⟨fd', p, team, hk, hp⟩ := h.client c hc
  simp only [Server.teamOf, he.oldClient h hc, hk, Option.bind_some, he.oldPlayer h (p := p) (by rw [hp]; rfl)]

/-- The clients in the table have other players than the new one. -/
private theorem ne_newPlayer (h : Registered s) {c : Addr} (hc : c ∈ s.live) {p : Addr}
    (hk : s.clientKey c = some (fd, p)) : p ≠ s.nextAddr + 1 := by
  rintro rfl
  obtain ⟨fd', p', team, hk', hp⟩ := h.client c hc
  rw [hk] at hk'
  cases hk'
  rw [h.freshPlayer _ (Nat.le_succ _)] at hp
  cases hp

/-- The team of the login has one player more. -/
theorem countP (he : Entered s s' fd teamId) (h : Registered s) (i : Nat) :
    (s'.live.countP fun c => s'.teamOf c = some i) =
      (s.live.countP fun c => s.teamOf c = some i) + if teamId = i then 1 else 0 := by
  rw [he.live.countP_eq, List.countP_cons, he.newTeam,
    List.countP_congr (l := s.live) (q := fun c => decide (s.teamOf c = some i)) fun c hc => by
      rw [he.oldTeam h hc]]
  simp only [Option.some.injEq, decide_eq_true_eq]

theorem registered (he : Entered s s' fd teamId) (h : Registered s) {t : Team} (ht : s.teams[teamId]? = some t)
    (hfull : t.currentPlayers < t.maxPlayers) : Registered s' := by
  constructor
  case freshClient =>
    intro c hc
    rw [he.addr] at hc
    rw [he.client, Function.update_of_ne (Nat.ne_of_gt (Nat.lt_of_lt_of_le (Nat.lt_add_of_pos_right (by decide)) hc))]
    exact h.freshClient c (Nat.le_trans (Nat.le_add_right _ 2) hc)
  case freshPlayer =>
    intro p hp
    rw [he.addr] at hp
    rw [he.player, Function.update_of_ne (Nat.ne_of_gt hp)]
    exact h.freshPlayer p (Nat.le_trans (Nat.le_add_right _ 2) hp)
  case nodup =>
    exact he.live.nodup_iff.2 (List.nodup_cons.2 ⟨fun hm => ne_new h hm rfl, h.nodup⟩)
  case client =>
    intro c hc
    rcases (he.mem_live c).1 hc with rfl | hc
    · exact ⟨fd, _, teamId, he.newClient, he.newPlayer⟩
    · obtain ⟨fd', p, team, hk, hp⟩ := h.client c hc
      exact ⟨fd', p, team, by rw [he.oldClient h hc, hk], by rw [he.oldPlayer h (by rw [hp]; rfl), hp]⟩
  case distinct =>
    intro c hc d hd fd₁ fd₂ p hkc hkd
    rcases (he.mem_live c).1 hc with rfl | hc <;> rcases (he.mem_live d).1 hd with rfl | hd
    · rfl
    · rw [he.newClient] at hkc
      cases hkc
      rw [he.oldClient h hd] at hkd
      exact absurd rfl (ne_newPlayer h hd hkd)
    · rw [he.newClient] at hkd
      cases hkd
      rw [he.oldClient h hc] at hkc
      exact absurd rfl (ne_newPlayer h hc hkc)
    · rw [he.oldClient h hc] at hkc
      rw [he.oldClient h hd] at hkd
      exact h.distinct c hc d hd _ _ _ hkc hkd
  case owned =>
    intro p hp
    by_cases hpn : p = s.nextAddr + 1
    · exact ⟨s.nextAddr, (he.mem_live _).2 (Or.inl rfl), fd, by rw [he.newClient, hpn]⟩
    · rw [he.player, Function.update_of_ne hpn] at hp
      obtain ⟨c, hc, fd', hk⟩ := h.owned p hp
      exact ⟨c, (he.mem_live c).2 (Or.inr hc), fd', by rw [he.oldClient h hc, hk]⟩
  case count =>
    intro i u hu
    rw [he.teams] at hu
    obtain ⟨v, hv, rfl⟩ := getElem?_modify_some hu
    have hcount := h.count i v hv
    rw [he.countP h i]
    by_cases hi : teamId = i
    · rw [if_pos hi, if_pos hi]
      push_cast
      rw [← hcount]
    · rw [if_neg hi, if_neg hi]
      exact hcount
  case bound =>
    intro i u hu
    rw [he.teams] at hu
    obtain ⟨v, hv, rfl⟩ := getElem?_modify_some hu
    have hbound := h.bound i v hv
    by_cases hi : teamId = i
    · -- the place of the login was free
      obtain rfl := Option.some.inj ((hi ▸ ht).symm.trans hv)
      rw [if_pos hi]
      exact hfull
    · rw [if_neg hi]
      exact hbound
  case team =>
    intro c hc
    rw [he.teams, List.length_modify]
    rcases (he.mem_live c).1 hc with rfl | hc
    · exact ⟨teamId, (List.getElem?_eq_some_iff.1 ht).1, he.newTeam⟩
    · rw [he.oldTeam h hc]
      exact h.team c hc
  case room =>
    have hmax : s'.teams.map Team.maxPlayers = s.teams.map Team.maxPlayers := by
      rw [he.teams]
      exact map_modify fun _ => rfl
    rw [hmax, he.slots]
    exact h.room

end Entered

/-! ### A death -/

/-- A dead player's client is found in the table, and its team has a place to give up. -/
theorem Registered.die_succeeds (h : Registered s) {c : Addr} {cl : Client} {pl : Player} (hc : c ∈ s.live)
    (hcl : s.clientHeap c = some cl) (hpl : s.playerHeap cl.player = some pl) :
    ∃ j t, s.clients[j]? = some (some c) ∧
      removeClientFromServer s c = some { s with clients := s.clients.set j none } ∧
      s.teams[pl.teamId]? = some t ∧
      teamRemovePlayerFromTeam { s with clients := s.clients.set j none } pl =
        some (({ s with clients := s.clients.set j none } : Server).modTeam pl.teamId fun t =>
          { t with
            players := Function.update t.players t.currentPlayers.toNat 0
            currentPlayers := t.currentPlayers - 1 }) := by
  obtain ⟨j, hj, hslot⟩ := findIdx?_entry hc
  have hteam := teamOf_eq hcl hpl
  obtain ⟨i, hi, hti⟩ := h.team c hc
  obtain rfl := Option.some.inj (hteam.symm.trans hti)
  have ht := List.getElem?_eq_getElem hi
  have hpos : 0 < (s.teams[pl.teamId]).currentPlayers := by
    have hcount : 0 < s.live.countP fun d => s.teamOf d = some pl.teamId :=
      List.countP_pos_iff.2 ⟨c, hc, by simpa using hteam⟩
    rw [h.count _ _ ht]
    omega
  refine ⟨j, _, hslot, by unfold removeClientFromServer; rw [hj]; rfl, ht, ?_⟩
  simp only [teamRemovePlayerFromTeam, ht, Option.bind_some]
  rw [if_neg (by omega)]

/-- What a death leaves behind: no player, the slot of its client free, and one player less in the team.  The record
of the client itself may stay. -/
structure Left (s s' : Server) (c : Addr) (cl : Client) (pl : Player) : Prop where
  live : s.live.Perm (c :: s'.live)
  slots : s'.clients.length = s.clients.length
  teams : s'.teams = s.teams.modify pl.teamId fun t =>
    { t with
      players := Function.update t.players t.currentPlayers.toNat 0
      currentPlayers := t.currentPlayers - 1 }
  client : ∀ d, s'.clientKey d = s.clientKey d ∨ d = c ∧ s'.clientKey d = none
  player : s'.playerKey = Function.update s.playerKey cl.player none
  addr : s'.nextAddr = s.nextAddr

namespace Left

variable {c : Addr} {cl : Client} {pl : Player}

theorem ne_gone (hl : Left s s' c cl pl) (h : Registered s) {d : Addr} (hd : d ∈ s'.live) : d ≠ c := by
  have hnodup := List.nodup_cons.1 (hl.live.nodup_iff.1 h.nodup)
  rintro rfl
  exact hnodup.1 hd

theorem mem_old (hl : Left s s' c cl pl) {d : Addr} (hd : d ∈ s'.live) : d ∈ s.live :=
  hl.live.mem_iff.2 (List.mem_cons_of_mem _ hd)

theorem gone_mem (hl : Left s s' c cl pl) : c ∈ s.live := hl.live.mem_iff.2 List.mem_cons_self

theorem oldClient (hl : Left s s' c cl pl) (h : Registered s) {d : Addr} (hd : d ∈ s'.live) :
    s'.clientKey d = s.clientKey d :=
  (hl.client d).resolve_right fun h' => hl.ne_gone h hd h'.1

/-- The other clients have other players. -/
theorem ne_gonePlayer (hl : Left s s' c cl pl) (h : Registered s) (hcl : s.clientHeap c = some cl) {d : Addr}
    (hd : d ∈ s'.live) {fd : Fd} {p : Addr} (hk : s.clientKey d = some (fd, p)) : p ≠ cl.player := by
  have hkc : s.clientKey c = some (cl.socketFd, cl.player) := by simp [Server.clientKey, hcl]
  rintro rfl
  exact hl.ne_gone h hd (h.distinct d (hl.mem_old hd) c hl.gone_mem _ _ _ hk hkc)

private theorem oldTeam (hl : Left s s' c cl pl) (h : Registered s) (hcl : s.clientHeap c = some cl) {d : Addr}
    (hd : d ∈ s'.live) : s'.teamOf d = s.teamOf d := by
  obtain ⟨fd, p, team, hk, hp⟩ := h.client d (hl.mem_old hd)
  simp only [Server.teamOf, hl.oldClient h hd, hk, Option.bind_some, hl.player,
    Function.update_of_ne (hl.ne_gonePlayer h hcl hd hk)]

/-- The team of the dead player has one player less. -/
theorem countP (hl : Left s s' c cl pl) (h : Registered s) (hcl : s.clientHeap c = some cl)
    (hpl : s.playerHeap cl.player = some pl) (i : Nat) :
    (s.live.countP fun d => s.teamOf d = some i) =
      (s'.live.countP fun d => s'.teamOf d = some i) + if pl.teamId = i then 1 else 0 := by
  rw [hl.live.countP_eq, List.countP_cons, teamOf_eq hcl hpl, List.countP_congr (l := s'.live)
    (q := fun d => decide (s'.teamOf d = some i)) fun d hd => by rw [hl.oldTeam h hcl hd]]
  simp only [Option.some.injEq, decide_eq_true_eq]

theorem registered (hl : Left s s' c cl pl) (h : Registered s) (hcl : s.clientHeap c = some cl)
    (hpl : s.playerHeap cl.player = some pl) : Registered s' := by
  constructor
  case freshClient =>
    intro d hd
    rw [hl.addr] at hd
    rcases hl.client d with h' | h'
    · rw [h']; exact h.freshClient d hd
    · exact h'.2
  case freshPlayer =>
    intro p hp
    rw [hl.addr] at hp
    rw [hl.player, Function.update_apply]
    split
    · rfl
    · exact h.freshPlayer p hp
  case nodup => exact (List.nodup_cons.1 (hl.live.nodup_iff.1 h.nodup)).2
  case client =>
    intro d hd
    obtain ⟨fd, p, team, hk, hp⟩ := h.client d (hl.mem_old hd)
    exact ⟨fd, p, team, by rw [hl.oldClient h hd, hk],
      by rw [hl.player, Function.update_of_ne (hl.ne_gonePlayer h hcl hd hk), hp]⟩
  case distinct =>
    intro d hd e he fd fd' p hkd hke
    rw [hl.oldClient h hd] at hkd
    rw [hl.oldClient h he] at hke
    exact h.distinct d (hl.mem_old hd) e (hl.mem_old he) _ _ _ hkd hke
  case owned =>
    intro p hp
    rw [hl.player, Function.update_apply] at hp
    split at hp
    · cases hp
    · rename_i hne
      obtain ⟨d, hd, fd, hk⟩ := h.owned p hp
      rcases List.mem_cons.1 (hl.live.mem_iff.1 hd) with rfl | hd'
      · simp only [Server.clientKey, hcl, Option.map_some, Option.some.injEq, Prod.mk.injEq] at hk
        exact absurd hk.2.symm hne
      · exact ⟨d, hd', fd, by rw [hl.oldClient h hd', hk]⟩
  case count =>
    intro i u hu
    rw [hl.teams] at hu
    obtain ⟨v, hv, rfl⟩ := getElem?_modify_some hu
    have hcount := h.count i v hv
    rw [hl.countP h hcl hpl i] at hcount
    by_cases hi : pl.teamId = i
    · rw [if_pos hi] at hcount ⊢
      show v.currentPlayers - 1 = _
      omega
    · rw [if_neg hi] at hcount ⊢
      exact hcount
  case bound =>
    intro i u hu
    rw [hl.teams] at hu
    obtain ⟨v, hv, rfl⟩ := getElem?_modify_some hu
    have hbound := h.bound i v hv
    by_cases hi : pl.teamId = i
    · rw [if_pos hi]
      show v.currentPlayers - 1 ≤ v.maxPlayers
      omega
    · rw [if_neg hi]
      exact hbound
  case team =>
    intro d hd
    rw [hl.teams, List.length_modify, hl.oldTeam h hcl hd]
    exact h.team d (hl.mem_old hd)
  case room =>
    have hmax : s'.teams.map Team.maxPlayers = s.teams.map Team.maxPlayers := by
      rw [hl.teams]
      exact map_modify fun _ => rfl
    rw [hmax, hl.slots]
    exact h.room

end Left

private theorem buried_playerKey (s : Server) (cl : Client) (pl : Player) :
    (buried s cl pl).playerKey = Function.update s.playerKey cl.player none := by
  have hsame := (removePlayer_same s cl.player).playerKey
  funext p
  simp only [buried, Server.createResponseToCommand, Server.send, Server.record, freePlayer, Server.playerKey,
    Function.update_apply]
  split
  · rfl
  · exact congrFun hsame p

/-- A death without food ends in the removal of the player, or in the error of the queue of descriptors. -/
theorem Registered.left (h : Registered s) (cfg : Config) {c : Addr} {cl : Client} {pl : Player} (hc : c ∈ s.live)
    (hcl : s.clientHeap c = some cl) (hpl : s.playerHeap cl.player = some pl) (hfood : pl.inv.nourriture ≤ 0) :
    ((gamePlayerDie cfg s c cl pl).1 = .died ∨ (gamePlayerDie cfg s c cl pl).1 = .queueError) ∧
      Left s (gamePlayerDie cfg s c cl pl).2 c cl pl := by
  obtain ⟨j, t, hslot, h₁, ht, h₂⟩ := h.die_succeeds hc hcl hpl
  have hdead := gamePlayerDie_deceased cfg s c cl hfood
  obtain ⟨i, hi, hclients⟩ := hdead.clients.resolve_left fun h' => h'.1 (List.reduceOption_mem_iff.1 hc)
  -- neither the table nor the team refuses, so the player is buried
  obtain ⟨hres, hteams, hplayer⟩ :
      ((gamePlayerDie cfg s c cl pl).1 = .died ∨ (gamePlayerDie cfg s c cl pl).1 = .queueError) ∧
      (gamePlayerDie cfg s c cl pl).2.teams = (s.teams.modify pl.teamId fun t =>
        { t with
          players := Function.update t.players t.currentPlayers.toNat 0
          currentPlayers := t.currentPlayers - 1 }) ∧
      (gamePlayerDie cfg s c cl pl).2.playerKey = Function.update s.playerKey cl.player none := by
    rcases gamePlayerDie_cases cfg s c cl hfood with ⟨h', -⟩ | ⟨s₁, h₁', ⟨h', -⟩ | ⟨s₂, h₂', hend⟩⟩
    · rw [h₁] at h'; cases h'
    · rw [h₁] at h₁'
      cases h₁'
      rw [h₂] at h'
      cases h'
    · rw [h₁] at h₁'
      cases h₁'
      have hs₂ := Option.some.inj (h₂.symm.trans h₂')
      have hteams : (buried s₂ cl pl).teams = s.teams.modify pl.teamId fun t =>
          { t with
            players := Function.update t.players t.currentPlayers.toNat 0
            currentPlayers := t.currentPlayers - 1 } := by rw [buried_same, ← hs₂]; rfl
      have hkey : s₂.playerKey = s.playerKey := by rw [← hs₂]; rfl
      have hplayer : (buried s₂ cl pl).playerKey = Function.update s.playerKey cl.player none := by
        rw [buried_playerKey, hkey]
      rcases hend with ⟨-, h'⟩ | ⟨-, h'⟩
      · rw [h']; exact ⟨Or.inr rfl, hteams, hplayer⟩
      · rw [h', releaseArgs_eq]; exact ⟨Or.inl rfl, hteams, hplayer⟩
  refine ⟨hres, ?_⟩
  constructor
  case live =>
    rw [Server.live, Server.live, hclients]
    exact reduceOption_empty hi
  case slots => rw [hclients, List.length_set]
  case teams => exact hteams
  case client =>
    intro d
    rcases hdead.clientHeap d with h' | ⟨hd, h'⟩
    · exact Or.inl (by rw [Server.clientKey, h']; rfl)
    · exact Or.inr ⟨hd, by rw [Server.clientKey, h']; rfl⟩
  case player => exact hplayer
  case addr => rw [hdead.rest]

theorem Effect.registered (he : Effect cfg a s s') (h : Registered s) : Registered s' := by
  cases he with
  | quiet _ _ _ _ _ _ haddr => exact h.congr rfl rfl rfl rfl haddr
  | takeRemovals => exact h.congr rfl rfl rfl rfl (Nat.le_refl _)
  | serverBuffer b hb => exact h.congr rfl rfl rfl rfl (Nat.le_refl _)
  | enter hname ht hfull => exact (h.entered _ _ _ _ ht hfull).registered h ht hfull
  | schedule hc hcl hb => exact h.setBuffer _ hcl
  | kill hc hcl hpl =>
    refine .congr (.modPlayer h _ ?_ ?_) rfl rfl rfl rfl (Nat.le_refl _)
    all_goals exact fun _ => rfl
  | eat hi hcl hpl hfood =>
    refine .congr (.modPlayer h _ ?_ ?_) rfl rfl rfl rfl (Nat.le_refl _)
    all_goals exact fun _ => rfl
  | die hi hcl hpl hfood => exact (h.left _ (mem_of_getElem? hi) hcl hpl hfood).2.registered h hcl hpl
  | pop hi hcl hcount => exact h.setBuffer _ hcl
  | clearArg hcl hq => exact h.setBuffer _ hcl
  | turn dir hpl => exact h.modPlayer _ (fun _ => rfl) fun _ => rfl
  | move hpl hql => exact h.places (movePlayer_same _ _ _)
  | take hpl hr =>
    refine .modPlayer ?_ _ ?_ ?_
    · exact h.congr rfl rfl rfl rfl (Nat.le_refl _)
    all_goals exact fun _ => rfl
  | put hpl hr =>
    refine .modPlayer ?_ _ ?_ ?_
    · exact h.congr rfl rfl rfl rfl (Nat.le_refl _)
    all_goals exact fun _ => rfl
  | pay hpl hcan => exact h.congr rfl rfl rfl rfl (Nat.le_refl _)
  | front hpl hc hcl hb => exact h.setBuffer _ hcl
  | levelUp hpl hlevel => exact h.modPlayer _ (fun _ => rfl) fun _ => rfl
  | complete p level => exact h.congr rfl rfl rfl rfl (Nat.le_refl _)
  | spawn n counts => exact h.congr rfl rfl rfl rfl (Nat.le_refl _)

/-! ### Runs -/

theorem registered_init (width height : Nat) (teams : List String) (nbClients : Nat)
    (counts : Nat → InventoryType → Nat) : Registered (gameInit cfg width height teams nbClients counts) := by
  have hlive : (gameInit cfg width height teams nbClients counts).live = [] := List.reduceOption_replicate_none
  constructor
  case freshClient => exact fun _ _ => rfl
  case freshPlayer => exact fun _ _ => rfl
  case nodup => rw [hlive]; exact List.nodup_nil
  case client => rw [hlive]; simp
  case distinct => rw [hlive]; simp
  case owned => intro p hp; cases hp
  case count =>
    intro i t ht
    simp only [gameInit, List.getElem?_map, Option.map_eq_some_iff] at ht
    obtain ⟨name, -, rfl⟩ := ht
    rw [hlive]
    rfl
  case bound =>
    intro i t ht
    simp only [gameInit, List.getElem?_map, Option.map_eq_some_iff] at ht
    obtain ⟨name, -, rfl⟩ := ht
    exact Int.natCast_nonneg _
  case team => rw [hlive]; simp
  case room =>
    simp only [gameInit, List.map_map, List.length_replicate]
    have hsum : ((teams.map (Team.maxPlayers ∘ fun name =>
        ({ name := name, maxPlayers := ((nbClients / teams.length : Nat) : Int) } : Team))).sum : Int) =
        ((teams.length * (nbClients / teams.length) : Nat) : Int) := by
      rw [show (Team.maxPlayers ∘ fun name =>
        ({ name := name, maxPlayers := ((nbClients / teams.length : Nat) : Int) } : Team)) =
          fun _ => ((nbClients / teams.length : Nat) : Int) from rfl, List.map_const', List.sum_replicate]
      simp
    rw [hsum]
    exact Int.ofNat_le.2 (Nat.mul_div_le _ _)

theorem registered_of_run {width height : Nat} {teams : List String} {nbClients : Nat}
    {counts : Nat → InventoryType → Nat} {as : List GameAction}
    (h : run (gameStep cfg) (gameInit cfg width height teams nbClients counts) as = some s) : Registered s :=
  (game_invariant (fun _ _ _ he _ hI => he.registered hI) (buffersWF_init _ _ _) (registered_init _ _ _ _ _) h).2

theorem gameRegisterPlayer_success {conn : Conn} {fd : Fd} {teamName : String} {draw : StartDraw}
    (h : (gameRegisterPlayer cfg s conn fd teamName draw).1 = .success) :
    ∃ teamId t, gameGetTeamId s teamName = some teamId ∧ s.teams[teamId]? = some t ∧
      t.currentPlayers < t.maxPlayers ∧
      (gameRegisterPlayer cfg s conn fd teamName draw).2 = enterGame cfg s conn fd teamId draw := by
  unfold gameRegisterPlayer at h ⊢
  cases hname : gameGetTeamId s teamName with
  | none => rw [hname] at h; cases h
  | some teamId =>
    rw [hname] at h
    cases ht : s.teams[teamId]? with
    | none => simp only [ht] at h; cases h
    | some t =>
      simp only [ht] at h
      cases hfull : teamIsFull t with
      | true => simp only [hfull, if_true] at h; cases h
      | false =>
        refine ⟨teamId, t, rfl, ht, by simpa [teamIsFull] using hfull, ?_⟩
        simp [ht, hfull]

theorem gameRegisterPlayer_error {conn : Conn} {fd : Fd} {teamName : String} {draw : StartDraw}
    (h : (gameRegisterPlayer cfg s conn fd teamName draw).1 = .error) :
    (gameRegisterPlayer cfg s conn fd teamName draw).2 = s := by
  unfold gameRegisterPlayer at h ⊢
  split
  · rfl
  · split
    · rfl
    · split
      · rfl
      · simp_all

/-- The lookup by descriptor finds a client when the table has one with that socket. -/
theorem gameGetClientFromFd_isSome {c : Addr} {fd : Fd} {p : Addr} (hc : c ∈ s.live)
    (hk : s.clientKey c = some (fd, p)) : ∃ d, s.gameGetClientFromFd fd = some d := by
  rw [← Option.isSome_iff_exists, Server.gameGetClientFromFd, List.findSome?_isSome_iff]
  simp only [Server.clientKey, Option.map_eq_some_iff, Prod.mk.injEq] at hk
  obtain ⟨cl, hcl, rfl, -⟩ := hk
  exact ⟨some c, List.reduceOption_mem_iff.1 hc, by simp [hcl]⟩

private theorem Registered.remaining_nonneg (h : Registered s) {i : Nat} {n : Int} (hn : s.remaining i = some n) :
    0 ≤ n := by
  simp only [Server.remaining, Option.map_eq_some_iff] at hn
  obtain ⟨t, ht, rfl⟩ := hn
  have := h.bound i t ht
  omega

/-- `game_get_team_remaining_clients` for the descriptor of a client of the table. -/
theorem Registered.remaining_clients (h : Registered s) {c : Addr} {fd : Fd} {p : Addr} (hc : c ∈ s.live)
    (hk : s.clientKey c = some (fd, p)) : ∃ n, gameGetTeamRemainingClients s fd = some n ∧ 0 ≤ n := by
  obtain ⟨d, hd⟩ := gameGetClientFromFd_isSome hc hk
  have hlive : d ∈ s.live := List.reduceOption_mem_iff.2 (gameGetClientFromFd_some hd).1
  obtain ⟨cl, pl, hcl, hpl, -⟩ := h.client_heap hlive
  obtain ⟨i, hi, hti⟩ := h.team d hlive
  obtain rfl := Option.some.inj ((teamOf_eq hcl hpl).symm.trans hti)
  have hrem : s.remaining pl.teamId = some ((s.teams[pl.teamId]).maxPlayers - (s.teams[pl.teamId]).currentPlayers) := by
    simp [Server.remaining, List.getElem?_eq_getElem hi]
  refine ⟨_, ?_, h.remaining_nonneg hrem⟩
  simp [gameGetTeamRemainingClients, hd, hcl, hpl, hrem]

/-- What the teams and the table of clients owe to each other. -/
structure CapacityOK (cfg : Config) (s : Server) : Prop where
  /-- A team counts the live clients whose player is in it, and has no more than its places. -/
  counts : ∀ (i : Nat) (t : Team), s.teams[i]? = some t →
    t.currentPlayers = ((s.live.countP fun c => s.teamOf c = some i : Nat) : Int) ∧
      0 ≤ t.currentPlayers ∧ t.currentPlayers ≤ t.maxPlayers
  /-- The occupied slots are as many as the players of all teams. -/
  slots : (s.live.length : Int) = (s.teams.map Team.currentPlayers).sum
  /-- Every live player belongs to a client of the table. -/
  owned : ∀ p, (s.playerHeap p).isSome → ∃ c ∈ s.live, ∃ cl, s.clientHeap c = some cl ∧ cl.player = p
  /-- Past the check of `TEAM_IS_FULL` both calls whose results are ignored succeed, the new client is in the table
  and counted in its team, and `remaining_clients` is not negative. -/
  join : ∀ conn fd teamName draw, (gameRegisterPlayer cfg s conn fd teamName draw).1 = .success →
    ∃ teamId, gameGetTeamId s teamName = some teamId ∧ ∃ s₁,
      teamAddPlayerToTeam (onTile cfg s conn fd teamId draw) (newPlayer cfg s fd teamId draw) = some s₁ ∧
      addClientToServer s₁ s.nextAddr = some (gameRegisterPlayer cfg s conn fd teamName draw).2 ∧
      s.nextAddr ∈ (gameRegisterPlayer cfg s conn fd teamName draw).2.live ∧
      (gameRegisterPlayer cfg s conn fd teamName draw).2.teamOf s.nextAddr = some teamId ∧
      ∃ n, gameGetTeamRemainingClients (gameRegisterPlayer cfg s conn fd teamName draw).2 fd = some n ∧ 0 ≤ n
  /-- `game_player_die` never stops half way for want of a slot or of a place in the team. -/
  die : ∀ c ∈ s.live, ∀ cl pl, s.clientHeap c = some cl → s.playerHeap cl.player = some pl →
    (gamePlayerDie cfg s c cl pl).1 ≠ .slotError ∧ (gamePlayerDie cfg s c cl pl).1 ≠ .teamError
  /-- `connect_nbr` is not negative. -/
  remaining : ∀ i n, s.remaining i = some n → 0 ≤ n

private theorem Registered.capacityOK (h : Registered s) (cfg : Config) : CapacityOK cfg s := by
  constructor
  case counts =>
    intro i t ht
    have hcount := h.count i t ht
    exact ⟨hcount, by omega, h.bound i t ht⟩
  case slots => exact h.live_length
  case owned =>
    intro p hp
    obtain ⟨c, hc, fd, hk⟩ := h.owned p (by simpa [Server.playerKey] using hp)
    simp only [Server.clientKey, Option.map_eq_some_iff, Prod.mk.injEq] at hk
    obtain ⟨cl, hcl, -, hp'⟩ := hk
    exact ⟨c, hc, cl, hcl, hp'⟩
  case join =>
    intro conn fd teamName draw hok
    obtain ⟨teamId, t, hname, ht, hfull, hs'⟩ := gameRegisterPlayer_success hok
    have he := h.entered cfg conn fd draw ht hfull
    have hreg := he.registered h ht hfull
    have hmem := (he.mem_live s.nextAddr).2 (Or.inl rfl)
    have hrest := (addPlayer_same (allocPlayer cfg s conn fd teamId draw)
      (s.mapIndex ⟨draw.x % s.mapX, draw.y % s.mapY⟩) (s.nextAddr + 1)).rest
    have hteams : (onTile cfg s conn fd teamId draw).teams = s.teams := by rw [onTile, hrest]; rfl
    have hclients : (onTile cfg s conn fd teamId draw).clients = s.clients := by rw [onTile, hrest]; rfl
    obtain ⟨s₃, hadd, hs₃⟩ : ∃ s₃, teamAddPlayerToTeam (onTile cfg s conn fd teamId draw)
        (newPlayer cfg s fd teamId draw) = some s₃ ∧ s₃.clients = s.clients :=
      ⟨(onTile cfg s conn fd teamId draw).modTeam teamId fun t =>
        { t with
          players := Function.update t.players t.currentPlayers.toNat fd
          currentPlayers := t.currentPlayers + 1 },
        by simp [teamAddPlayerToTeam, newPlayer, hteams, ht, hfull], hclients⟩
    obtain ⟨i, hi, -⟩ := findIdx?_free (h.free_slot ht hfull)
    have hslot : ∀ s₁ : Server, s₁.clients = s.clients →
        addClientToServer s₁ s.nextAddr = some { s₁ with clients := s.clients.set i (some s.nextAddr) } := by
      intro s₁ hs₁
      unfold addClientToServer
      rw [hs₁, hi]
      rfl
    rw [hs']
    refine ⟨teamId, hname, _, hadd, ?_, hmem, he.newTeam, hreg.remaining_clients hmem he.newClient⟩
    change _ = some ((addClientToServer ((teamAddPlayerToTeam (onTile cfg s conn fd teamId draw)
      (newPlayer cfg s fd teamId draw)).getD (onTile cfg s conn fd teamId draw)) s.nextAddr).getD _)
    rw [hadd, Option.getD_some, hslot s₃ hs₃]
    rfl
  case die =>
    intro c hc cl pl hcl hpl
    by_cases hfood : 0 < pl.inv.nourriture
    · simp [gamePlayerDie, hfood]
    · rcases (h.left cfg hc hcl hpl (by omega)).1 with h' | h' <;> rw [h'] <;> decide
  case remaining => exact fun i n => h.remaining_nonneg

/-- In every state a run of the game reaches, the teams and the table of clients agree. -/
theorem teams_and_slots_agree (cfg : Config) (width height : Nat) (teams : List String) (nbClients : Nat)
    (counts : Nat → InventoryType → Nat) (as : List GameAction) {s : Server}
    (h : run (gameStep cfg) (gameInit cfg width height teams nbClients counts) as = some s) : CapacityOK cfg s :=
  (registered_of_run h).capacityOK cfg

/-- Two teams of one place: the second login to the first team fails until its player is dead. -/
theorem teams_and_slots_agree_rejoin :
    ∃ s, run (gameStep shippedConfig) (gameInit shippedConfig 1 1 ["red", "blue"] 3 fun _ _ => 0)
        [.register 0 4 "red" ⟨0, 0, 0⟩, .register 1 5 "red" ⟨0, 0, 0⟩, .register 1 5 "blue" ⟨0, 0, 0⟩, .kill 4,
          .playSlot {} 0, .register 2 4 "red" ⟨0, 0, 0⟩] = some s ∧ CapacityOK shippedConfig s := by
  obtain ⟨s, hs⟩ := Option.isSome_iff_exists.1 (show (run (gameStep shippedConfig)
    (gameInit shippedConfig 1 1 ["red", "blue"] 3 fun _ _ => 0)
      [.register 0 4 "red" ⟨0, 0, 0⟩, .register 1 5 "red" ⟨0, 0, 0⟩, .register 1 5 "blue" ⟨0, 0, 0⟩, .kill 4,
        .playSlot {} 0, .register 2 4 "red" ⟨0, 0, 0⟩]).isSome by decide)
  exact ⟨s, hs, teams_and_slots_agree shippedConfig 1 1 _ _ _ _ hs⟩

end Zappy

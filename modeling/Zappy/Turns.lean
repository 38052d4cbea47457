import Zappy.Ownership

/-!
# What a turn leaves of the other players

The turn of a player, or its death, changes nobody else's food or time of death and empties no other slot.  A player
that has no food and whose time of death has come leaves the table in its turn.
-/

namespace Zappy

open LinkedList Relation Run Slots

variable {cfg : Config} {s s' : Server} {a : GameAction} {chance : Chance}

/-! ### Callbacks -/

private theorem levelUpLoop_vitals {level : Int} {it : Option Addr} (h : levelUpLoop s level it = some s') :
    s'.vitalsOf = s.vitalsOf := by
  refine forEach_invariant (I := fun s₁ => s₁.vitalsOf = s.vitalsOf) (fun s₁ q s₂ h' hI => ?_) h rfl
  rw [← hI]
  simp only [levelUpTurn, Option.map_eq_some_iff] at h'
  obtain ⟨r, hr, rfl⟩ := h'
  split
  · funext p
    change Option.map _ ((s₁.modPlayer q _).playerHeap p) = _
    rw [modPlayer_heap]
    split
    · rename_i hp; rw [hp, Server.vitalsOf, hr]; rfl
    · rfl
  · rfl

theorem commandRealIncantation_vitals {p : Addr} {pl : Player} {arg : Option Arg}
    (h : commandRealIncantation s p pl arg = some s') : s'.vitalsOf = s.vitalsOf := by
  obtain ⟨a, -, rfl | ⟨-, -, s₁, h₁, rfl⟩⟩ := commandRealIncantation_cases h
  · rfl
  · have hloop := levelUpLoop_vitals h₁
    exact hloop

private theorem queueCompletion_vitals (p : Addr) (pl : Player) (origin : Conn) :
    (queueCompletion cfg s p pl origin).vitalsOf = s.vitalsOf := by
  rw [queueCompletion_rest]
  rfl

private theorem gameSpawnResources_vitals (counts : Nat → InventoryType → Nat) (ev : Event) :
    (gameSpawnResources cfg counts s ev).vitalsOf = s.vitalsOf := by
  unfold Server.vitalsOf
  rw [(gameSpawnResources_same cfg counts s ev).2.2.1]

/-- A command leaves the inventory and the time of death of `q` alone, unless `q` itself takes or puts down. -/
private theorem runCommand_vitals {fuel : Nat} {p q : Addr} {pl : Player} {ev : Event} {c : CommandType}
    (hnot : q = p → c ≠ .prend ∧ c ≠ .pose) (h : runCommand cfg fuel s p pl ev c = some s') :
    s'.vitalsOf q = s.vitalsOf q := by
  by_cases hc : c = .incantation
  · subst hc
    obtain rfl | ⟨-, rfl⟩ := commandIncantation_cases h
    · rfl
    · rw [queueCompletion_vitals]
      rfl
  · by_cases hq : q = p
    · -- `p` itself: the command is about no objects, so all inventories stay
      obtain ⟨hprend, hpose⟩ := hnot hq
      have hctl : SameControl (q + 1) s s' :=
        runCommand_control_of hc (fun hor => absurd hor (not_or.2 ⟨hprend, hpose⟩)) h
      exact hctl.vitals q (Nat.ne_of_lt (Nat.lt_succ_self q))
    · exact (runCommand_control hc h).vitals q hq

/-- The event makes `q` take or put down. -/
def Event.moves (q : Addr) (ev : Event) : Prop :=
  ev.data = some q ∧ (ev.callback = some (.command .prend) ∨ ev.callback = some (.command .pose))

theorem runCallback_vitals {ev : Event} {q : Addr} (hnot : ¬ ev.moves q) (h : runCallback cfg chance ev s = some s') :
    s'.vitalsOf q = s.vitalsOf q := by
  unfold runCallback at h
  split at h
  · cases h; rfl
  · cases h; rw [gameSpawnResources_vitals]
  · rename_i type htype
    simp only [Option.bind_eq_some_iff] at h
    obtain ⟨p, hdata, pl, -, h⟩ := h
    refine runCommand_vitals (fun hq => ⟨?_, ?_⟩) h
    · rintro rfl
      exact hnot ⟨hq ▸ hdata, Or.inl htype⟩
    · rintro rfl
      exact hnot ⟨hq ▸ hdata, Or.inr htype⟩
  · simp only [Option.bind_eq_some_iff] at h
    obtain ⟨p, -, pl, -, h⟩ := h
    rw [commandRealIncantation_vitals h]

/-- A death frees one player at most, and moves the others about at most. -/
theorem gamePlayerDie_core {c : Addr} {cl : Client} {pl : Player} (hfood : pl.inv.nourriture ≤ 0) (q : Addr) :
    (gamePlayerDie cfg s c cl pl).2.playerHeap q = none ∨
      ((gamePlayerDie cfg s c cl pl).2.playerHeap q).map Player.core = (s.playerHeap q).map Player.core := by
  have hburied : ∀ t : Server, (buried t cl pl).playerHeap q = none ∨
      ((buried t cl pl).playerHeap q).map Player.core = (t.playerHeap q).map Player.core := by
    intro t
    have hheap : (buried t cl pl).playerHeap =
        Function.update (gameRemovePlayerFromTile t cl.player).playerHeap cl.player none := rfl
    by_cases hq : q = cl.player
    · exact Or.inl (by rw [hheap, hq, Function.update_self])
    · rw [hheap, Function.update_of_ne hq]
      exact Or.inr ((removePlayer_same t cl.player).core q)
  rcases gamePlayerDie_cases cfg s c cl hfood with ⟨-, h⟩ | ⟨s₁, h₁, ⟨-, h⟩ | ⟨s₂, h₂, hend⟩⟩
  · rw [h]
    exact Or.inr rfl
  · obtain ⟨i, -, rfl⟩ := removeClientFromServer_some h₁
    rw [h]
    exact Or.inr rfl
  · have hleft : s₂.playerHeap = s.playerHeap := by
      obtain ⟨i, -, rfl⟩ := removeClientFromServer_some h₁
      obtain ⟨t, -, -, rfl⟩ := teamRemovePlayerFromTeam_some h₂
      rfl
    rw [← hleft]
    rcases hend with ⟨-, h⟩ | ⟨-, h⟩
    · rw [h]
      exact hburied s₂
    · rw [h, releaseArgs_eq]
      exact hburied s₂

/-- Players that are alive after it were left alone by a death. -/
theorem gamePlayerDie_vitals {c : Addr} {cl : Client} {pl : Player} (hfood : pl.inv.nourriture ≤ 0) {q : Addr}
    (hq : ((gamePlayerDie cfg s c cl pl).2.playerHeap q).isSome) :
    (gamePlayerDie cfg s c cl pl).2.vitalsOf q = s.vitalsOf q := by
  rcases gamePlayerDie_core hfood q with hnone | hcore
  · rw [hnone] at hq
    cases hq
  · have hvitals := congrArg (Option.map fun r : Player => (r.dieTime, r.inv)) hcore
    rw [Option.map_map, Option.map_map] at hvitals
    exact hvitals

/-! ### Turns -/

/-- In the turn of the client `cl`, all of whose events are about its own player, the others keep their food and
their time of death. -/
theorem gamePlaySlot_vitals (hwf : BuffersWF s) {i : Nat} {c : Addr} {cl : Client}
    (hi : s.clients[i]? = some (some c)) (hcl : s.clientHeap c = some cl)
    (hown : ∀ ev ∈ cl.eventBuffer.queued, ev.data = some cl.player) {q : Addr} (hq : q ≠ cl.player)
    (h : gamePlaySlot cfg chance s i = some s') : s'.vitalsOf q = s.vitalsOf q := by
  cases gamePlaySlot_cases h with
  | empty => rfl
  | @eats d dl pl hat hdead hfood =>
    obtain ⟨rfl, rfl⟩ := hat.unique hi hcl
    exact (SameControl.modPlayer s cl.player (f := fun r =>
      { r with
        inv := { r.inv with nourriture := r.inv.nourriture - 1 }
        dieTime := u64 (r.dieTime + cfg.lifeUnit) }) fun _ => rfl).vitals q hq
  | @dies d dl pl hat hdead hfood =>
    obtain ⟨rfl, rfl⟩ := hat.unique hi hcl
    exact (gamePlayerDie_deceased cfg s c cl hfood).vitals q hq
  | waits => rfl
  | @plays d dl pl _ hat halive hdue hrun =>
    obtain ⟨rfl, rfl⟩ := hat.unique hi hcl
    rcases processClient_cases (hwf.client c cl hat.client) hat.client hrun with
      rfl | ⟨ev, hqueue, -, -, s₂, hcall, hend⟩
    · rfl
    · have hdata : ev.data = some cl.player := hown ev (by rw [hqueue]; exact List.mem_cons_self)
      have hcall' : s₂.vitalsOf q = (s.setClientBuffer c cl.eventBuffer.pop).vitalsOf q :=
        runCallback_vitals (fun hmoves => hq (Option.some.inj (hmoves.1.symm.trans hdata))) hcall
      rcases hend with rfl | ⟨addr, cl', j, -, -, -, rfl⟩
      · exact hcall'
      · exact hcall'

/-- A turn fills no slot, and empties the slot of its own client only. -/
theorem gamePlaySlot_clients (hwf : BuffersWF s) {i : Nat} (h : gamePlaySlot cfg chance s i = some s') {j : Nat}
    {c : Addr} (hj : s'.clients[j]? = some (some c)) : s.clients[j]? = some (some c) := by
  have heff := gamePlaySlot_effects hwf h
  clear h
  induction heff with
  | refl => exact hj
  | tail _ he ih =>
    refine ih ?_
    cases he with
    | @die _ chance i d dl pl hi hdl hpl hfood =>
      rcases (gamePlayerDie_deceased cfg _ d dl hfood).clients with ⟨-, h'⟩ | ⟨k, -, h'⟩
      · rwa [h'] at hj
      · rw [h', List.getElem?_set] at hj
        split at hj
        · split at hj <;> cases hj
        · exact hj
    | @move _ chance i p q pl ql hpl hql =>
      rwa [(movePlayer_same _ p (stepAhead _ ql.pos ql.dir)).rest] at hj
    | _ => exact hj

/-! ### Players that are about to die -/

/-- The player has no food, and its time of death is past whatever the clock says. -/
def Doomed (s : Server) (p : Addr) : Prop := ∃ inv : Inventory, s.vitalsOf p = some (0, inv) ∧ inv.nourriture ≤ 0

theorem Doomed.congr {p : Addr} (h : Doomed s p) (hp : s'.vitalsOf p = s.vitalsOf p) : Doomed s' p := by
  rwa [Doomed, hp]

theorem enterGame_vitals (hreg : Registered s) {conn : Conn} {fd : Fd} {teamId : Nat} {draw : StartDraw} {p : Addr}
    (hp : (s.vitalsOf p).isSome) : (enterGame cfg s conn fd teamId draw).vitalsOf p = s.vitalsOf p := by
  have hne : p ≠ s.nextAddr + 1 := by
    rintro rfl
    have := hreg.freshPlayer (s.nextAddr + 1) (Nat.le_succ _)
    rw [Server.playerKey, Option.map_eq_none_iff] at this
    rw [Server.vitalsOf, this] at hp
    cases hp
  have htile : (onTile cfg s conn fd teamId draw).vitalsOf p = s.vitalsOf p := by
    rw [onTile, (addPlayer_same _ _ _).vitalsOf]
    simp only [Server.vitalsOf, allocPlayer, Function.update_of_ne hne]
  rw [enterGame_eq]
  exact htile

/-- Outside the turns of players nobody gets food or time. -/
theorem Effect.doomed (he : Effect cfg a s s') (ha : ∀ chance i, a ≠ .playSlot chance i) (hreg : Registered s)
    {p : Addr} (h : Doomed s p) : Doomed s' p := by
  cases he with
  | quiet | takeRemovals | serverBuffer | schedule | spawn => exact h.congr rfl
  | enter =>
    obtain ⟨inv, hp, -⟩ := id h
    exact h.congr (enterGame_vitals hreg (by rw [hp]; rfl))
  | @kill _ fd c cl pl hc hcl hpl =>
    by_cases hp : p = cl.player
    · subst hp
      refine ⟨{ pl.inv with nourriture := 0 }, ?_, Int.le_refl 0⟩
      change Option.map _ ((s.modPlayer cl.player _).playerHeap cl.player) = _
      rw [modPlayer_heap, if_pos rfl, hpl]
      rfl
    · exact h.congr ((SameControl.modPlayer s cl.player (f := fun r =>
        { r with dieTime := 0, inv := { r.inv with nourriture := 0 } }) fun _ => rfl).vitals p hp)
  | _ => exact absurd rfl (ha _ _)

theorem gameStep_doomed (ha : ∀ chance i, a ≠ .playSlot chance i) (hwf : BuffersWF s) (hreg : Registered s)
    (h : gameStep cfg s a = some s') {p : Addr} (hp : Doomed s p) : Doomed s' p := by
  refine (?_ : Registered s' ∧ Doomed s' p).2
  have heff := gameStep_effects hwf h
  clear h
  induction heff with
  | refl => exact ⟨hreg, hp⟩
  | tail _ he ih => exact ⟨he.registered ih.1, he.doomed ha ih.1 ih.2⟩

/-- `game_kill_player` dooms the player of the one client that holds the descriptor. -/
theorem gameKillPlayer_doomed (hreg : Registered s) (huniq : UniqueFds s) {c : Addr} {cl : Client}
    (hc : LiveClient s c cl) : Doomed (gameKillPlayer s cl.socketFd) cl.player := by
  have hheld : FdHeld s cl.socketFd := ⟨c, cl, hc, rfl⟩
  obtain ⟨d, hd⟩ := Option.isSome_iff_exists.1 (fdHeld_iff.1 hheld)
  obtain ⟨hmem, dl, hdl, hfd⟩ := gameGetClientFromFd_some hd
  obtain rfl := huniq d c dl cl ⟨List.reduceOption_mem_iff.2 hmem, hdl⟩ hc hfd
  obtain ⟨cl', pl, hcl', hpl, -⟩ := hreg.client_heap hc.live
  obtain rfl := Option.some.inj (hc.heap.symm.trans hcl')
  refine ⟨{ pl.inv with nourriture := 0 }, ?_, Int.le_refl 0⟩
  simp only [gameKillPlayer, hd, hc.heap, hpl]
  change Option.map _ ((s.modPlayer cl.player _).playerHeap cl.player) = _
  rw [modPlayer_heap, if_pos rfl, hpl]
  rfl

/-- A doomed player leaves the table in its turn. -/
theorem gamePlaySlot_doomed (hreg : Registered s) {i : Nat} {c : Addr} {cl : Client}
    (hi : s.clients[i]? = some (some c)) (hcl : s.clientHeap c = some cl) (hdoomed : Doomed s cl.player)
    (h : gamePlaySlot cfg chance s i = some s') : c ∉ s'.live := by
  obtain ⟨inv, hvitals, hfood⟩ := hdoomed
  simp only [gamePlaySlot, hi, hcl, Option.bind_some, Option.bind_eq_some_iff] at h
  obtain ⟨pl, hpl, h⟩ := h
  rw [Server.vitalsOf, hpl, Option.map_some, Option.some.injEq, Prod.mk.injEq] at hvitals
  obtain ⟨hdie, rfl⟩ := hvitals
  have hdead : playerIsAlive pl s.now = false := by simp [playerIsAlive, hdie]
  rw [hdead] at h
  cases h
  rcases (gamePlayerDie_deceased cfg s c cl hfood).clients with ⟨hmem, -⟩ | ⟨j, hj, h'⟩
  · exact absurd (List.mem_of_getElem? hi) hmem
  · rw [Server.live, h']
    exact (List.nodup_cons.1 ((reduceOption_empty hj).nodup_iff.1 hreg.nodup)).1

end Zappy

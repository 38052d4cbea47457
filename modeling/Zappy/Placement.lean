import Zappy.Effects
import Mathlib.Data.List.Nodup

/-!
# Every player stands in the list of its tile

The invariant of the map: each live player is in the list of the tile named by its `pos`, exactly once and nowhere
else, and every list is a well-formed doubly linked list.  It holds in every state a run of the game reaches, and
after each turn of the loop of `m_command_expulse`, which moves the nodes it walks over.
-/

namespace Zappy

open LinkedList Run

variable {cfg : Config} {a : GameAction} {s s' : Server}

/-- What the map owes to its users, on a map of the given size. -/
structure TileListsOK (width height : Nat) (s : Server) : Prop where
  /-- A live player stands on the map. -/
  onMap : ∀ p pl, s.playerHeap p = some pl → pl.pos.x < width ∧ pl.pos.y < height
  /-- Each tile has a finite list without repetitions, with `next` and `prev` mutually inverse and no predecessor
  of the head; it holds live players only, and each live player once if the tile is its own and not at all else. -/
  lists : ∃ L : Nat → Nat → List Addr, ∀ x < width, ∀ y < height,
    IsList s.nextOf s.prevOf (s.map (y * width + x)).players (L x y) ∧
    (∀ p ∈ L x y, (s.playerHeap p).isSome) ∧
    ∀ p pl, s.playerHeap p = some pl → (L x y).count p = if pl.pos = ⟨x, y⟩ then 1 else 0
  /-- Each tile keeps the position that `game_init_map` gave it. -/
  tilePos : ∀ x < width, ∀ y < height, (s.map (y * width + x)).pos = ⟨x, y⟩

/-- The invariant that carries it. -/
structure Placed (width height : Nat) (s : Server) : Prop where
  mapX : s.mapX = width
  mapY : s.mapY = height
  fresh : ∀ p, s.nextAddr ≤ p → s.playerHeap p = none
  tiles : ∃ L, Tiles s (fun p => (s.posOf p).isSome) L

variable {width height : Nat}

theorem index_coords {w x y : Nat} (hx : x < w) : (y * w + x) % w = x ∧ (y * w + x) / w = y := by
  refine ⟨by rw [Nat.mul_add_mod', Nat.mod_eq_of_lt hx], ?_⟩
  rw [Nat.add_comm, Nat.add_mul_div_right _ _ (by omega), Nat.div_eq_of_lt hx, Nat.zero_add]

theorem Placed.tileListsOK (h : Placed width height s) : TileListsOK width height s := by
  obtain ⟨rfl, rfl, -, L, hL⟩ := h
  have hsome : ∀ {p pl}, s.playerHeap p = some pl → s.posOf p = some pl.pos := fun hp => by simp [Server.posOf, hp]
  have hlt : ∀ {x y}, x < s.mapX → y < s.mapY → y * s.mapX + x < s.mapX * s.mapY := fun {x y} hx hy =>
    mapIndex_lt (show s.OnMap ⟨x, y⟩ from ⟨hx, hy⟩)
  have honMap : ∀ p pl, s.playerHeap p = some pl → pl.pos.x < s.mapX ∧ pl.pos.y < s.mapY := fun p pl hp =>
    hL.onMap p pl.pos (by simp only [hsome hp, Option.isSome_some]) (hsome hp)
  refine ⟨honMap, ⟨fun x y => L (y * s.mapX + x), fun x hx y hy => ⟨hL.list _ (hlt hx hy), fun p hp =>
    hL.live (hlt hx hy) hp, fun p pl hp => ?_⟩⟩, fun x hx y hy => ?_⟩
  · have hmem : p ∈ L (y * s.mapX + x) ↔ pl.pos = ⟨x, y⟩ := by
      rw [hL.mem _ (hlt hx hy) p, hsome hp]
      simp only [Option.isSome_some, true_and, Option.map_some, Option.some.injEq, Server.mapIndex]
      constructor
      · -- on the map the index determines the coordinates
        intro he
        have hp' := index_coords (y := pl.pos.y) (honMap p pl hp).1
        have hxy := index_coords (y := y) hx
        rw [he] at hp'
        change (⟨pl.pos.x, pl.pos.y⟩ : Position) = ⟨x, y⟩
        rw [← hp'.1, ← hp'.2, hxy.1, hxy.2]
      · intro he; rw [he]
    split
    · rename_i he
      exact List.count_eq_one_of_mem (hL.list _ (hlt hx hy)).nodup (hmem.2 he)
    · rename_i he
      exact List.count_eq_zero_of_not_mem fun hm => he (hmem.1 hm)
  · rw [hL.tilePos _ (hlt hx hy), (index_coords hx).1, (index_coords hx).2]

/-! ### The writes keep the invariant -/

private theorem nextOf_modPlayer {p : Addr} {f : Player → Player} (hf : ∀ r, (f r).nextOnTile = r.nextOnTile) :
    (s.modPlayer p f).nextOf = s.nextOf := by
  funext b
  simp only [Server.nextOf, modPlayer_heap]
  split
  · cases s.playerHeap b <;> simp [hf]
  · rfl

private theorem prevOf_modPlayer {p : Addr} {f : Player → Player} (hf : ∀ r, (f r).prevOnTile = r.prevOnTile) :
    (s.modPlayer p f).prevOf = s.prevOf := by
  funext b
  simp only [Server.prevOf, modPlayer_heap]
  split
  · cases s.playerHeap b <;> simp [hf]
  · rfl

/-- A write to a player that leaves its place alone. -/
theorem Placed.modPlayer (h : Placed width height s) (p : Addr) {f : Player → Player}
    (hpos : ∀ r, (f r).pos = r.pos) (hnext : ∀ r, (f r).nextOnTile = r.nextOnTile)
    (hprev : ∀ r, (f r).prevOnTile = r.prevOnTile) : Placed width height (s.modPlayer p f) := by
  obtain ⟨hX, hY, hfresh, L, hL⟩ := h
  have hposOf := posOf_modPlayer s (p := p) hpos
  refine ⟨hX, hY, fun q hq => ?_, L, hL.congr rfl rfl (fun a _ => congrFun (nextOf_modPlayer hnext) a)
    (fun a _ => congrFun (prevOf_modPlayer hprev) a) (fun a _ => congrFun hposOf a) (fun _ => rfl) (fun _ => rfl)
    fun a => by rw [hposOf]⟩
  rw [modPlayer_heap, hfresh q hq]
  simp

/-- A write to a tile that leaves its list and its position alone. -/
theorem Placed.modTile (h : Placed width height s) (t : Nat) {f : Tile → Tile}
    (hplayers : ∀ tile, (f tile).players = tile.players) (hpos : ∀ tile, (f tile).pos = tile.pos) :
    Placed width height (s.modTile t f) := by
  obtain ⟨hX, hY, hfresh, L, hL⟩ := h
  refine ⟨hX, hY, hfresh, L, hL.congr rfl rfl (fun _ _ => rfl) (fun _ _ => rfl) (fun _ _ => rfl) (fun u => ?_)
    (fun u => ?_) fun _ => Iff.rfl⟩ <;>
  · simp only [Server.modTile, Function.update_apply]
    split
    · subst_vars; simp [hplayers, hpos]
    · rfl

/-- Nothing outside the map and the players matters. -/
theorem Placed.congr (h : Placed width height s) (hX : s'.mapX = s.mapX) (hY : s'.mapY = s.mapY)
    (hmap : s'.map = s.map) (hheap : s'.playerHeap = s.playerHeap) (haddr : s.nextAddr ≤ s'.nextAddr) :
    Placed width height s' := by
  obtain ⟨hX', hY', hfresh, L, hL⟩ := h
  have hnext : s'.nextOf = s.nextOf := by funext b; simp only [Server.nextOf, hheap]
  have hprev : s'.prevOf = s.prevOf := by funext b; simp only [Server.prevOf, hheap]
  have hpos : s'.posOf = s.posOf := by funext b; simp only [Server.posOf, hheap]
  exact ⟨hX.trans hX', hY.trans hY', fun p hp => by rw [hheap]; exact hfresh p (Nat.le_trans haddr hp), L,
    hL.congr hX hY (fun a _ => congrFun hnext a) (fun a _ => congrFun hprev a) (fun a _ => congrFun hpos a)
      (fun t => by rw [hmap]) (fun t => by rw [hmap]) fun a => by rw [hpos]⟩

theorem Placed.record (h : Placed width height s) (e : Entry) : Placed width height (s.record e) :=
  h.congr rfl rfl rfl rfl (Nat.le_refl _)

theorem SameButPlaces.posOf_isSome (h : SameButPlaces s s') (q : Addr) :
    (s'.posOf q).isSome = (s.posOf q).isSome := by
  have hq := congrArg Option.isSome (h.core q)
  simpa only [Option.isSome_map, Server.posOf] using hq

theorem Placed.move (h : Placed width height s) {p : Addr} {pl : Player} (hpl : s.playerHeap p = some pl)
    {pos : Position} (hpos : s.OnMap pos) : Placed width height (gameMovePlayer s p pos) := by
  obtain ⟨hX, hY, hfresh, L, hL⟩ := h
  have hsame := movePlayer_same s p pos
  obtain ⟨L', hL'⟩ := hL.move (by simp [Server.posOf, hpl]) hpl hpos
  refine ⟨(congrArg Server.mapX hsame.rest).trans hX, (congrArg Server.mapY hsame.rest).trans hY, fun q hq => ?_,
    L', hL'.congr rfl rfl (fun _ _ => rfl) (fun _ _ => rfl) (fun _ _ => rfl) (fun _ => rfl) (fun _ => rfl)
      fun a => by rw [hsame.posOf_isSome]⟩
  rw [hsame.rest] at hq
  have hcore := hsame.core q
  rw [hfresh q hq] at hcore
  exact Option.map_eq_none_iff.1 hcore

/-- A step ahead stays on the map. -/
theorem onMap_stepAhead {pos : Position} (h : s.OnMap pos) (dir : Direction) : s.OnMap (stepAhead s pos dir) := by
  obtain ⟨hx, hy⟩ := h
  cases dir with
  | north => exact ⟨hx, Nat.mod_lt _ (by omega)⟩
  | east => exact ⟨Nat.mod_lt _ (by omega), hy⟩
  | south => exact ⟨hx, Nat.mod_lt _ (by omega)⟩
  | west => exact ⟨Nat.mod_lt _ (by omega), hy⟩

theorem Placed.onMap (h : Placed width height s) {p : Addr} {pl : Player} (hpl : s.playerHeap p = some pl) :
    s.OnMap pl.pos := by
  obtain ⟨-, -, -, L, hL⟩ := h
  exact hL.onMap p pl.pos (by simp [Server.posOf, hpl]) (by simp [Server.posOf, hpl])

theorem Placed.onTile (h : Placed width height s) (hw : 0 < width) (hh : 0 < height) (conn : Conn) (fd : Fd)
    (teamId : Nat) (draw : StartDraw) : Placed width height (onTile cfg s conn fd teamId draw) := by
  obtain ⟨rfl, rfl, hfresh, L, hL⟩ := h
  have hp : s.playerHeap (s.nextAddr + 1) = none := hfresh _ (Nat.le_succ _)
  have hposp : s.posOf (s.nextAddr + 1) = none := by simp [Server.posOf, hp]
  have hne : ∀ q, (s.posOf q).isSome → q ≠ s.nextAddr + 1 := by
    rintro q hq rfl
    rw [hposp] at hq
    cases hq
  have hheap : ∀ q, q ≠ s.nextAddr + 1 →
      (allocPlayer cfg s conn fd teamId draw).playerHeap q = s.playerHeap q := fun q hq =>
    Function.update_of_ne hq _ _
  have hnew : ((allocPlayer cfg s conn fd teamId draw).playerHeap (s.nextAddr + 1)).isSome := by
    simp [allocPlayer]
  have hL₁ : Tiles (allocPlayer cfg s conn fd teamId draw) (fun q => (s.posOf q).isSome) L :=
    hL.congr rfl rfl (fun q hq => by simp only [Server.nextOf, hheap q (hne q hq)])
      (fun q hq => by simp only [Server.prevOf, hheap q (hne q hq)])
      (fun q hq => by simp only [Server.posOf, hheap q (hne q hq)]) (fun _ => rfl) (fun _ => rfl) fun _ => Iff.rfl
  have ht : s.mapIndex ⟨draw.x % s.mapX, draw.y % s.mapY⟩ < s.mapX * s.mapY :=
    mapIndex_lt ⟨Nat.mod_lt _ hw, Nat.mod_lt _ hh⟩
  have hL₂ := hL₁.add (p := s.nextAddr + 1) (by simp [hposp]) hnew ht
  have hsame := addPlayer_same (allocPlayer cfg s conn fd teamId draw)
    (s.mapIndex ⟨draw.x % s.mapX, draw.y % s.mapY⟩) (s.nextAddr + 1)
  refine ⟨by rw [Zappy.onTile, hsame.rest]; rfl, by rw [Zappy.onTile, hsame.rest]; rfl, fun q hq => ?_, _,
    hL₂.congr rfl rfl (fun _ _ => rfl) (fun _ _ => rfl) (fun _ _ => rfl) (fun _ => rfl) (fun _ => rfl) fun q => ?_⟩
  · have hq' : s.nextAddr + 2 ≤ q := by
      have := hq
      rw [Zappy.onTile, hsame.rest] at this
      exact this
    have hcore := hsame.core q
    rw [hheap q (Nat.ne_of_lt hq').symm, hfresh q (Nat.le_trans (Nat.le_add_right _ 2) hq')] at hcore
    exact Option.map_eq_none_iff.1 hcore
  · rw [Zappy.onTile, hsame.posOf_isSome]
    by_cases hq : q = s.nextAddr + 1
    · simp only [hq, Server.posOf, Option.isSome_map, hnew, or_true]
    · simp only [hq, Server.posOf, Option.isSome_map, hheap q hq, or_false]

/-- Unlinking a player and freeing it. -/
theorem Placed.free (h : Placed width height s) {p : Addr} {pl : Player} (hpl : s.playerHeap p = some pl) :
    Placed width height (freePlayer p (gameRemovePlayerFromTile s p)) := by
  obtain ⟨hX, hY, hfresh, L, hL⟩ := h
  have hsame := removePlayer_same s p
  have hL' := hL.remove (p := p) (by simp [Server.posOf, hpl]) hpl
  have hheap : ∀ q, q ≠ p → (freePlayer p (gameRemovePlayerFromTile s p)).playerHeap q =
      (gameRemovePlayerFromTile s p).playerHeap q := fun q hq => Function.update_of_ne hq _ _
  refine ⟨(congrArg Server.mapX hsame.rest).trans hX, (congrArg Server.mapY hsame.rest).trans hY, fun q hq => ?_, _,
    hL'.congr rfl rfl (fun q hq => by simp only [Server.nextOf, hheap q hq.2])
      (fun q hq => by simp only [Server.prevOf, hheap q hq.2]) (fun q hq => by simp only [Server.posOf, hheap q hq.2])
      (fun _ => rfl) (fun _ => rfl) fun q => ?_⟩
  · change (gameRemovePlayerFromTile s p).nextAddr ≤ q at hq
    rw [hsame.rest] at hq
    by_cases hqp : q = p
    · simp [freePlayer, hqp]
    · have hcore := hsame.core q
      rw [hfresh q hq] at hcore
      rw [hheap q hqp]
      exact Option.map_eq_none_iff.1 hcore
  · by_cases hqp : q = p
    · simp [hqp, freePlayer, Server.posOf]
    · have : (freePlayer p (gameRemovePlayerFromTile s p)).posOf q = (gameRemovePlayerFromTile s p).posOf q := by
        simp only [Server.posOf, hheap q hqp]
      rw [this, hsame.posOf_isSome]
      simp [hqp]

theorem Placed.die (h : Placed width height s) {c : Addr} {cl : Client} {pl : Player}
    (hpl : s.playerHeap cl.player = some pl) (hfood : pl.inv.nourriture ≤ 0) :
    Placed width height (gamePlayerDie cfg s c cl pl).2 := by
  rcases gamePlayerDie_cases cfg s c cl hfood with
    ⟨-, h'⟩ | ⟨s₁, h₁, ⟨-, h'⟩ | ⟨s₂, h₂, hend⟩⟩
  · rw [h']; exact h
  · obtain ⟨i, -, rfl⟩ := removeClientFromServer_some h₁
    rw [h']
    exact h.congr rfl rfl rfl rfl (Nat.le_refl _)
  · obtain ⟨i, -, rfl⟩ := removeClientFromServer_some h₁
    obtain ⟨t, -, -, rfl⟩ := teamRemovePlayerFromTeam_some h₂
    have hleft : Placed width height (({ s with clients := s.clients.set i none } : Server).modTeam pl.teamId fun t =>
        { t with
          players := Function.update t.players t.currentPlayers.toNat 0
          currentPlayers := t.currentPlayers - 1 }) := h.congr rfl rfl rfl rfl (Nat.le_refl _)
    have hfree := hleft.free hpl
    rcases hend with ⟨-, h'⟩ | ⟨-, h'⟩
    · rw [h']
      exact hfree.congr rfl rfl rfl rfl (Nat.le_refl _)
    · rw [h', releaseArgs_eq]
      exact hfree.congr rfl rfl rfl rfl (Nat.le_refl _)

theorem Effect.placed (hw : 0 < width) (hh : 0 < height) (he : Effect cfg a s s') (h : Placed width height s) :
    Placed width height s' := by
  cases he with
  | quiet _ _ _ _ _ _ haddr => exact h.congr rfl rfl rfl rfl haddr
  | takeRemovals => exact h.congr rfl rfl rfl rfl (Nat.le_refl _)
  | serverBuffer b hb => exact h.congr rfl rfl rfl rfl (Nat.le_refl _)
  | enter hname ht hfull =>
    rw [enterGame_eq]
    exact (h.onTile hw hh _ _ _ _).congr rfl rfl rfl rfl (Nat.le_refl _)
  | schedule hc hcl hb => exact h.congr rfl rfl rfl rfl (Nat.le_refl _)
  | kill hc hcl hpl =>
    refine .record (.modPlayer h _ ?_ ?_ ?_) _
    all_goals exact fun _ => rfl
  | eat hi hcl hpl hfood =>
    refine .record (.modPlayer h _ ?_ ?_ ?_) _
    all_goals exact fun _ => rfl
  | die hi hcl hpl hfood => exact h.die hpl hfood
  | pop hi hcl hcount => exact h.congr rfl rfl rfl rfl (Nat.le_refl _)
  | clearArg hcl hq => exact h.congr rfl rfl rfl rfl (Nat.le_refl _)
  | turn dir hpl => exact .modPlayer h _ (fun _ => rfl) (fun _ => rfl) fun _ => rfl
  | move hpl hql => exact h.move hpl (onMap_stepAhead (h.onMap hql) _)
  | take hpl hr =>
    refine .modPlayer (.modTile h _ ?_ ?_) _ ?_ ?_ ?_
    all_goals exact fun _ => rfl
  | put hpl hr =>
    refine .modPlayer (.modTile h _ ?_ ?_) _ ?_ ?_ ?_
    all_goals exact fun _ => rfl
  | pay hpl hcan =>
    refine .record (.modTile h _ ?_ ?_) _
    all_goals exact fun _ => rfl
  | front hpl hc hcl hb => exact h.congr rfl rfl rfl rfl (Nat.le_refl _)
  | levelUp hpl hlevel => exact .modPlayer h _ (fun _ => rfl) (fun _ => rfl) fun _ => rfl
  | complete p level => exact h.record _
  | spawn n counts =>
    refine .record (.modTile h _ ?_ ?_) _
    all_goals exact fun _ => rfl

/-! ### Runs -/

theorem placed_init (width height : Nat) (teams : List String) (nbClients : Nat)
    (counts : Nat → InventoryType → Nat) :
    Placed width height (gameInit cfg width height teams nbClients counts) :=
  ⟨rfl, rfl, fun _ _ => rfl, fun _ => [], fun _ _ => ⟨rfl, List.nodup_nil⟩,
    fun _ _ _ => by simp [Server.posOf, gameInit], fun _ _ h => (by cases h), fun _ _ => rfl⟩

theorem buffersWF_init (teams : List String) (nbClients : Nat) (counts : Nat → InventoryType → Nat) :
    BuffersWF (gameInit cfg width height teams nbClients counts) := by
  refine ⟨fun _ _ h => (by cases h), fun i cb h => ?_⟩
  simp only [gameInit] at h
  split at h
  · simp only [timeApiScheduleClientEvent, ge_iff_le, Nat.le_zero, show ¬ maxEvents = 0 by decide, if_false,
      Option.getD_some, Function.update_apply] at h
    split at h
    · exact (Option.some.inj h).symm
    · cases h
  · cases h

theorem placed_of_run (hw : 0 < width) (hh : 0 < height) {teams : List String} {nbClients : Nat}
    {counts : Nat → InventoryType → Nat} {as : List GameAction}
    (h : run (gameStep cfg) (gameInit cfg width height teams nbClients counts) as = some s) :
    BuffersWF s ∧ Placed width height s :=
  game_invariant (fun _ _ _ he _ hI => he.placed hw hh hI) (buffersWF_init _ _ _) (placed_init _ _ _ _ _) h

/-! ### Inside the loop of `m_command_expulse` -/

/-- The first `n` turns of the loop of `m_command_expulse`, for the player `pl`. -/
def expulseTurns (n : Nat) (s : Server) (pl : Player) : Option (Server × Option Addr) :=
  turns (expulseTurn pl (stepAhead s pl.pos pl.dir)) Server.nextOnTile n s (s.map (s.mapIndex pl.pos)).players

/-- `m_command_expulse` answers when its loop has come to the end of a list. -/
theorem commandExpulse_eq (fuel : Nat) (s : Server) (pl : Player) :
    commandExpulse fuel s pl = (expulseTurns fuel s pl).bind fun r =>
      match r.2 with
      | none => some (r.1.createResponseToCommand pl.id "expulse" none (some "ok"))
      | some _ => none := by
  unfold commandExpulse expulseTurns
  cases (s.map (s.mapIndex pl.pos)).players with
  | none => cases fuel <;> rfl
  | some first =>
    simp only [forEach_eq_turns]
    cases turns _ _ _ _ _ with
    | none => rfl
    | some r => obtain ⟨s', it⟩ := r; cases it <;> rfl

/-- The successor of a live player on its tile is live. -/
private theorem Placed.next_live (h : Placed width height s) {p : Addr} {pl : Player} (hpl : s.playerHeap p = some pl) :
    ∃ it, s.nextOnTile p = some it ∧ ∀ q, it = some q → (s.playerHeap q).isSome := by
  obtain ⟨-, -, -, L, hL⟩ := h
  refine ⟨pl.nextOnTile, by simp [Server.nextOnTile, hpl], fun q hq => ?_⟩
  obtain ⟨ht, hp⟩ := hL.mem_own (p := p) (by simp [Server.posOf, hpl]) hpl
  exact hL.live ht (hL.next_mem ht hp (by simp [Server.nextOf, hpl, hq]))

/-- The loop of `m_command_expulse` never follows a dangling pointer, and the map is in order after each turn. -/
private theorem Placed.expulseTurns (h : Placed width height s) {p : Addr} {pl : Player}
    (hpl : s.playerHeap p = some pl) (n : Nat) :
    ∃ s' it, expulseTurns n s pl = some (s', it) ∧ Placed width height s' := by
  have hahead := onMap_stepAhead (h.onMap hpl) pl.dir
  have hstart : ∀ q, (s.map (s.mapIndex pl.pos)).players = some q → (s.playerHeap q).isSome := by
    obtain ⟨-, -, -, L, hL⟩ := h
    obtain ⟨ht, -⟩ := hL.mem_own (p := p) (by simp [Server.posOf, hpl]) hpl
    exact fun q hq => hL.live ht ((hL.list _ ht).head_mem hq)
  have hturn : ∀ s₁ q, (Placed width height s₁ ∧ ∀ r, some q = some r → (s₁.playerHeap r).isSome) →
      ∃ s₂ it, expulseTurn pl (stepAhead s pl.pos pl.dir) s₁ q = some s₂ ∧ s₂.nextOnTile q = some it ∧
        Placed width height s₂ ∧ ∀ r, it = some r → (s₂.playerHeap r).isSome := by
    rintro s₁ q ⟨h₁, hlive⟩
    obtain ⟨r, hr⟩ := Option.isSome_iff_exists.1 (hlive q rfl)
    by_cases hid : r.id = pl.id
    · obtain ⟨it, hit, hl⟩ := h₁.next_live hr
      exact ⟨s₁, it, by simp [expulseTurn, hr, hid], hit, h₁, hl⟩
    · have hon : s₁.OnMap (stepAhead s pl.pos pl.dir) := by
        simpa only [Server.OnMap, h₁.mapX, h₁.mapY, h.mapX, h.mapY] using hahead
      have h₂ := h₁.move hr hon
      obtain ⟨r', hr', -⟩ := (movePlayer_same s₁ q (stepAhead s pl.pos pl.dir)).player' hr
      obtain ⟨it, hit, hl⟩ := h₂.next_live hr'
      refine ⟨(gameMovePlayer s₁ q (stepAhead s pl.pos pl.dir)).createResponseToCommand r.id "deplacement" none
        (some (directionTable pl.dir pl.dir)), it, by simp [expulseTurn, hr, hid], hit,
        h₂.congr rfl rfl rfl rfl (Nat.le_refl _), hl⟩
  obtain ⟨s', it, hs', hI, -⟩ := turns_total
    (I := fun s₁ it => Placed width height s₁ ∧ ∀ q, it = some q → (s₁.playerHeap q).isSome) hturn n ⟨h, hstart⟩
  exact ⟨s', it, hs', hI⟩

/-- In every state that a run of the game reaches, and after any number of turns of the loop of
`m_command_expulse` started there by any player, the map is in order. -/
theorem players_stay_placed (cfg : Config) {width height : Nat} (hw : 0 < width) (hh : 0 < height)
    (teams : List String) (nbClients : Nat) (counts : Nat → InventoryType → Nat) (as : List GameAction) {s : Server}
    (h : run (gameStep cfg) (gameInit cfg width height teams nbClients counts) as = some s) :
    TileListsOK width height s ∧
    ∀ c b p pl, s.playerHeap p = some pl → ∀ n, ∃ s' it,
      expulseTurns n (s.setClientBuffer c b) pl = some (s', it) ∧ TileListsOK width height s' := by
  obtain ⟨-, hp⟩ := placed_of_run hw hh h
  refine ⟨hp.tileListsOK, fun c b p pl hpl n => ?_⟩
  have hp' : Placed width height (s.setClientBuffer c b) := hp.congr rfl rfl rfl rfl (Nat.le_refl _)
  obtain ⟨s', it, hs', h'⟩ := hp'.expulseTurns hpl n
  exact ⟨s', it, hs', h'.tileListsOK⟩

/-- Two players on one tile, the first of which expels the second. -/
def expulsion : List GameAction :=
  [.register 0 4 "red" ⟨0, 0, 0⟩, .register 1 5 "red" ⟨0, 0, 1⟩, .execute 0 4 "expulse" none, .tick 7,
    .playSlot { fuel := 5 } 0]

theorem players_stay_placed_expulsion :
    ∃ s, run (gameStep shippedConfig) (gameInit shippedConfig 2 2 ["red"] 2 fun _ _ => 0) expulsion = some s ∧
      TileListsOK 2 2 s := by
  obtain ⟨s, hs⟩ := Option.isSome_iff_exists.1 (show (run (gameStep shippedConfig)
    (gameInit shippedConfig 2 2 ["red"] 2 fun _ _ => 0) expulsion).isSome by decide)
  exact ⟨s, hs, (players_stay_placed shippedConfig (by decide) (by decide) _ _ _ _ hs).1⟩

end Zappy

import Zappy.Placement
import Zappy.Lib.Slots

/-!
# No resource is made or lost unseen

The units of a resource on all tiles and in all inventories change only by what the ledger records: spawning,
payment for an incantation, eating, the food taken by `game_kill_player`, and the inventory of a removed player.
No count is ever negative.
-/

namespace Zappy

open LinkedList Run Slots

variable {cfg : Config} {a : GameAction} {s s' : Server} {r : InventoryType} {width height : Nat}

/-- The units of a resource that an entry of the ledger stands for. -/
def Entry.balance (r : InventoryType) : Entry → Int
  | .spawned items => items.get r
  | .ritual _ level => -(levelReqs level).inv.get r
  | .completed _ _ => 0
  | .ate _ => if r = .nourriture then -1 else 0
  | .zeroed _ units => if r = .nourriture then -units else 0
  | .removed _ items => -items.get r

/-- The units of a resource a player holds. -/
def held (r : InventoryType) : Option Player → Int
  | some pl => pl.inv.get r
  | none => 0

/-- The units of a resource on all tiles. -/
def Server.onTiles (r : InventoryType) (s : Server) : Int :=
  ∑ t ∈ Finset.range (s.mapX * s.mapY), (s.map t).items.get r

/-- The units of a resource in the inventories of all live players. -/
def Server.inHands (r : InventoryType) (s : Server) : Int := ∑ p ∈ Finset.range s.nextAddr, held r (s.playerHeap p)

/-- The units of a resource in the game. -/
def Server.total (r : InventoryType) (s : Server) : Int := s.onTiles r + s.inHands r

/-- The units of a resource that the ledger accounts for. -/
def Server.booked (r : InventoryType) (s : Server) : Int := (s.ledger.map (Entry.balance r)).sum

/-- No count is negative, and `base r` units and the booked ones are all there are. -/
structure Conserved (base : InventoryType → Int) (s : Server) : Prop where
  tiles : ∀ r, ∀ t < s.mapX * s.mapY, 0 ≤ (s.map t).items.get r
  players : ∀ r p pl, s.playerHeap p = some pl → 0 ≤ pl.inv.get r
  total : ∀ r, s.total r = base r + s.booked r

/-! ### Sums after one write -/

private theorem onTiles_modTile {t : Nat} (ht : t < s.mapX * s.mapY) (f : Tile → Tile) :
    (s.modTile t f).onTiles r = s.onTiles r + ((f (s.map t)).items.get r - (s.map t).items.get r) := by
  have hu : (fun u => ((s.modTile t f).map u).items.get r) =
      Function.update (fun u => (s.map u).items.get r) t ((f (s.map t)).items.get r) := by
    funext u
    simp only [Server.modTile, Function.update_apply]
    split <;> rfl
  have hsum := sum_range_update ht (fun u => (s.map u).items.get r) ((f (s.map t)).items.get r)
  simp only [← hu] at hsum
  change ∑ u ∈ Finset.range (s.mapX * s.mapY), ((s.modTile t f).map u).items.get r = s.onTiles r + _
  simp only [Server.onTiles]
  omega

private theorem inHands_update {p : Addr} {pl : Player} (hp : p < s.nextAddr) (hpl : s.playerHeap p = some pl)
    (new : Option Player) :
    ∑ q ∈ Finset.range s.nextAddr, held r (Function.update s.playerHeap p new q) =
      s.inHands r + (held r new - pl.inv.get r) := by
  have hu : (fun q => held r (Function.update s.playerHeap p new q)) =
      Function.update (fun q => held r (s.playerHeap q)) p (held r new) := by
    funext q
    simp only [Function.update_apply]
    split <;> rfl
  have hsum := sum_range_update hp (fun q => held r (s.playerHeap q)) (held r new)
  simp only [← hu, hpl] at hsum
  change _ + pl.inv.get r = _ at hsum
  simp only [Server.inHands]
  omega

private theorem inHands_modPlayer {p : Addr} {pl : Player} (hp : p < s.nextAddr) (hpl : s.playerHeap p = some pl)
    (f : Player → Player) : (s.modPlayer p f).inHands r = s.inHands r + ((f pl).inv.get r - pl.inv.get r) := by
  have := inHands_update (r := r) hp hpl (some (f pl))
  simpa only [Server.inHands, Server.modPlayer, hpl, Option.map_some, held] using this

private theorem booked_record (e : Entry) : (s.record e).booked r = s.booked r + e.balance r := by
  simp [Server.booked, Server.record]

private theorem Placed.lt_nextAddr (h : Placed width height s) {p : Addr} {pl : Player}
    (hpl : s.playerHeap p = some pl) : p < s.nextAddr := by
  by_contra hle
  rw [h.fresh p (Nat.le_of_not_lt hle)] at hpl
  cases hpl

/-- The requisites of an incantation whose seven comparisons pass. -/
theorem Inventory.lacks_false {items req : Inventory} (h : items.lacks req = false) (r : InventoryType) :
    req.get r ≤ items.get r := by
  simp only [Inventory.lacks, Bool.or_eq_false_iff, decide_eq_false_iff_not, Int.not_lt] at h
  obtain ⟨⟨⟨⟨⟨⟨h₁, h₂⟩, h₃⟩, h₄⟩, h₅⟩, h₆⟩, h₇⟩ := h
  cases r <;> assumption

theorem gameCheckCanIncantation_items {pl : Player} (h : gameCheckCanIncantation s pl true = some .success) :
    (s.map (s.mapIndex pl.pos)).items.lacks (levelReqs pl.level).inv = false := by
  unfold gameCheckCanIncantation at h
  split at h
  · cases h
  · simp only [Bool.true_and] at h
    split at h
    · cases h
    · rename_i hl; simpa using hl

/-! ### The writes keep the balance -/

namespace Conserved

variable {base : InventoryType → Int}

/-- Only the items of the tiles, the inventories and the ledger matter. -/
theorem congr (h : Conserved base s) (hX : s'.mapX = s.mapX) (hY : s'.mapY = s.mapY)
    (hitems : ∀ t, (s'.map t).items = (s.map t).items)
    (hinv : ∀ q, (s'.playerHeap q).map Player.inv = (s.playerHeap q).map Player.inv) (hledger : s'.ledger = s.ledger)
    (hfresh : ∀ p, s.nextAddr ≤ p → s.playerHeap p = none) (haddr : s.nextAddr ≤ s'.nextAddr) :
    Conserved base s' := by
  have hheld : ∀ r q, held r (s'.playerHeap q) = held r (s.playerHeap q) := by
    intro r q
    have hmap : ∀ o : Option Player, held r o = ((o.map Player.inv).map fun inv => inv.get r).getD 0 := fun o => by
      cases o <;> rfl
    rw [hmap, hmap, hinv]
  refine ⟨?_, fun r p pl hpl => ?_, fun r => ?_⟩
  · simpa only [hX, hY, hitems] using h.tiles
  · have hp := hinv p
    rw [hpl] at hp
    obtain ⟨pl₀, hpl₀, he⟩ := Option.map_eq_some_iff.1 hp.symm
    rw [← he]
    exact h.players r p pl₀ hpl₀
  · have hsum : s'.inHands r = s.inHands r := by
      simp only [Server.inHands, hheld]
      refine (Finset.sum_subset (Finset.range_subset_range.2 haddr) fun p _ hp => ?_).symm
      rw [hfresh p (by simpa using hp)]
      rfl
    have ht := h.total r
    simp only [Server.total, Server.booked, Server.onTiles] at ht ⊢
    simpa only [hsum, hX, hY, hitems, hledger] using ht

theorem places (h : Conserved base s) (hfresh : ∀ p, s.nextAddr ≤ p → s.playerHeap p = none)
    (hsame : SameButPlaces s s') : Conserved base s' := by
  refine h.congr ?_ ?_ hsame.items (fun q => ?_) ?_ hfresh ?_
  case refine_3 =>
    have hq := congrArg (Option.map Player.inv) (hsame.core q)
    rw [Option.map_map, Option.map_map] at hq
    exact hq
  all_goals rw [hsame.rest]

/-- A write to one player and the entry that books it. -/
theorem modPlayer (h : Conserved base s) {p : Addr} {pl : Player} (hp : p < s.nextAddr)
    (hpl : s.playerHeap p = some pl) {f : Player → Player} {e : Entry}
    (hnonneg : ∀ r, 0 ≤ (f pl).inv.get r) (hbal : ∀ r, (f pl).inv.get r - pl.inv.get r = e.balance r) :
    Conserved base ((s.modPlayer p f).record e) := by
  refine ⟨h.tiles, fun r q ql hq => ?_, fun r => ?_⟩
  · change (s.modPlayer p f).playerHeap q = some ql at hq
    rw [modPlayer_heap] at hq
    split at hq
    · rename_i hqp
      rw [hqp, hpl] at hq
      cases hq
      exact hnonneg r
    · exact h.players r q ql hq
  · have ht := h.total r
    have h₁ := inHands_modPlayer (r := r) hp hpl f
    have h₂ := booked_record (s := s.modPlayer p f) (r := r) e
    have h₃ := hbal r
    change s.onTiles r + (s.modPlayer p f).inHands r = base r + ((s.modPlayer p f).record e).booked r
    change _ = s.booked r + _ at h₂
    change s.onTiles r + s.inHands r = _ at ht
    omega

/-- A write to the items of one tile and the entry that books it. -/
theorem modTile (h : Conserved base s) {t : Nat} (ht : t < s.mapX * s.mapY) {f : Tile → Tile} {e : Entry}
    (hnonneg : ∀ r, 0 ≤ (f (s.map t)).items.get r)
    (hbal : ∀ r, (f (s.map t)).items.get r - (s.map t).items.get r = e.balance r) :
    Conserved base ((s.modTile t f).record e) := by
  refine ⟨fun r u hu => ?_, h.players, fun r => ?_⟩
  · change 0 ≤ ((s.modTile t f).map u).items.get r
    simp only [Server.modTile, Function.update_apply]
    split
    · exact hnonneg r
    · exact h.tiles r u hu
  · have htot := h.total r
    have h₁ := onTiles_modTile (r := r) ht f
    have h₂ := booked_record (s := s.modTile t f) (r := r) e
    have h₃ := hbal r
    change (s.modTile t f).onTiles r + s.inHands r = base r + ((s.modTile t f).record e).booked r
    change _ = s.booked r + _ at h₂
    change s.onTiles r + s.inHands r = _ at htot
    omega

/-- A write to a tile and a write to a player that together keep every count. -/
private theorem transfer (h : Conserved base s) {p : Addr} {pl : Player} {t : Nat} {f : Tile → Tile}
    {g : Player → Player} (hp : p < s.nextAddr) (hpl : s.playerHeap p = some pl) (ht : t < s.mapX * s.mapY)
    (htile : ∀ r, 0 ≤ (f (s.map t)).items.get r) (hhand : ∀ r, 0 ≤ (g pl).inv.get r)
    (hbal : ∀ r, (f (s.map t)).items.get r - (s.map t).items.get r + ((g pl).inv.get r - pl.inv.get r) = 0) :
    Conserved base ((s.modTile t f).modPlayer p g) := by
  refine ⟨fun r u hu => ?_, fun r q ql hq => ?_, fun r => ?_⟩
  · change 0 ≤ ((s.modTile t f).map u).items.get r
    simp only [Server.modTile, Function.update_apply]
    split
    · exact htile r
    · exact h.tiles r u hu
  · rw [modPlayer_heap] at hq
    change (if q = p then (s.playerHeap q).map g else s.playerHeap q) = some ql at hq
    split at hq
    · rename_i hqp
      rw [hqp, hpl] at hq
      cases hq
      exact hhand r
    · exact h.players r q ql hq
  · have htot := h.total r
    have h₁ := onTiles_modTile (r := r) ht f
    have h₂ : ((s.modTile t f).modPlayer p g).inHands r = s.inHands r + _ :=
      inHands_modPlayer (s := s.modTile t f) hp hpl g
    have h₃ := hbal r
    change (s.modTile t f).onTiles r + ((s.modTile t f).modPlayer p g).inHands r = base r + s.booked r
    change s.onTiles r + s.inHands r = _ at htot
    omega

end Conserved

/-- The new player holds nothing. -/
theorem Conserved.onTile {base : InventoryType → Int} (h : Conserved base s) (cfg : Config) (hp : Placed width height s)
    (conn : Conn) (fd : Fd) (teamId : Nat) (draw : StartDraw) :
    Conserved base (onTile cfg s conn fd teamId draw) := by
  refine Conserved.places (s := allocPlayer cfg s conn fd teamId draw) ?_ (fun q hq => ?_) (addPlayer_same _ _ _)
  case refine_2 =>
    change s.nextAddr + 2 ≤ q at hq
    rw [show (allocPlayer cfg s conn fd teamId draw).playerHeap q = s.playerHeap q from
      Function.update_of_ne (Nat.ne_of_gt hq) _ _]
    exact hp.fresh q (Nat.le_trans (Nat.le_add_right _ 2) hq)
  have hheap : ∀ q, (allocPlayer cfg s conn fd teamId draw).playerHeap q =
      if q = s.nextAddr + 1 then some (newPlayer cfg s fd teamId draw) else s.playerHeap q := fun q =>
    Function.update_apply ..
  refine ⟨h.tiles, fun r q ql hq => ?_, fun r => ?_⟩
  · rw [hheap] at hq
    split at hq
    · cases hq; simp [newPlayer]
    · exact h.players r q ql hq
  · have hsum : (allocPlayer cfg s conn fd teamId draw).inHands r = s.inHands r := by
      change ∑ q ∈ Finset.range (s.nextAddr + 2), _ = _
      rw [Finset.sum_range_succ, Finset.sum_range_succ]
      rw [hheap s.nextAddr, hheap (s.nextAddr + 1), if_pos rfl, if_neg (Nat.ne_of_lt (Nat.lt_succ_self _)),
        hp.fresh _ (Nat.le_refl _)]
      have hnew : held r (some (newPlayer cfg s fd teamId draw)) = 0 := Inventory.get_zero r
      rw [hnew, show held r none = 0 from rfl, Int.add_zero, Int.add_zero]
      refine Finset.sum_congr rfl fun q hq => ?_
      rw [hheap q, if_neg (Nat.ne_of_lt (Nat.lt_succ_of_lt (Finset.mem_range.1 hq)))]
    have ht := h.total r
    change s.onTiles r + (allocPlayer cfg s conn fd teamId draw).inHands r = base r + s.booked r
    rw [hsum]
    exact ht

/-- The inventory of a removed player is booked. -/
theorem Conserved.buried {base : InventoryType → Int} (h : Conserved base s)
    (hfresh : ∀ p, s.nextAddr ≤ p → s.playerHeap p = none) {cl : Client} {pl : Player}
    (hp : cl.player < s.nextAddr) (hpl : s.playerHeap cl.player = some pl) : Conserved base (buried s cl pl) := by
  have hsame := removePlayer_same s cl.player
  have h₁ := h.places hfresh hsame
  obtain ⟨pl', hpl', hcore⟩ := hsame.player' hpl
  have hinv : pl'.inv = pl.inv := (Player.core_eq hcore).2.2.2.2.1
  have hp₁ : cl.player < (gameRemovePlayerFromTile s cl.player).nextAddr := by rw [hsame.rest]; exact hp
  refine ⟨h₁.tiles, fun r q ql hq => ?_, fun r => ?_⟩
  · change Function.update (gameRemovePlayerFromTile s cl.player).playerHeap cl.player none q = some ql at hq
    rw [Function.update_apply] at hq
    split at hq
    · cases hq
    · exact h₁.players r q ql hq
  · have ht := h₁.total r
    have hu := inHands_update (r := r) hp₁ hpl' none
    have hb := booked_record (r := r) (s := freePlayer cl.player (gameRemovePlayerFromTile s cl.player))
      (.removed cl.player pl.inv)
    rw [hinv] at hu
    rw [show held r none = 0 from rfl] at hu
    change (gameRemovePlayerFromTile s cl.player).onTiles r + ∑ q ∈ Finset.range
      (gameRemovePlayerFromTile s cl.player).nextAddr, held r (Function.update
        (gameRemovePlayerFromTile s cl.player).playerHeap cl.player none q) = base r +
      ((freePlayer cl.player (gameRemovePlayerFromTile s cl.player)).record (.removed cl.player pl.inv)).booked r
    change _ = (gameRemovePlayerFromTile s cl.player).booked r + -pl.inv.get r at hb
    change (gameRemovePlayerFromTile s cl.player).onTiles r + (gameRemovePlayerFromTile s cl.player).inHands r =
      _ at ht
    omega

theorem Conserved.die {base : InventoryType → Int} (h : Conserved base s) (hp : Placed width height s) {c : Addr}
    {cl : Client} {pl : Player} (hpl : s.playerHeap cl.player = some pl) (hfood : pl.inv.nourriture ≤ 0) :
    Conserved base (gamePlayerDie cfg s c cl pl).2 := by
  have hlt := hp.lt_nextAddr hpl
  rcases gamePlayerDie_cases cfg s c cl hfood with
    ⟨-, h'⟩ | ⟨s₁, h₁, ⟨-, h'⟩ | ⟨s₂, h₂, hend⟩⟩
  · rw [h']; exact h
  · obtain ⟨i, -, rfl⟩ := removeClientFromServer_some h₁
    rw [h']
    exact h.congr rfl rfl (fun _ => rfl) (fun _ => rfl) rfl hp.fresh (Nat.le_refl _)
  · obtain ⟨i, -, rfl⟩ := removeClientFromServer_some h₁
    obtain ⟨t, -, -, rfl⟩ := teamRemovePlayerFromTeam_some h₂
    have hleft : Conserved base (({ s with clients := s.clients.set i none } : Server).modTeam pl.teamId fun t =>
        { t with
          players := Function.update t.players t.currentPlayers.toNat 0
          currentPlayers := t.currentPlayers - 1 }) :=
      h.congr rfl rfl (fun _ => rfl) (fun _ => rfl) rfl hp.fresh (Nat.le_refl _)
    have hb := hleft.buried hp.fresh hlt hpl
    rcases hend with ⟨-, h'⟩ | ⟨-, h'⟩
    · rw [h']; exact hb
    · rw [h', releaseArgs_eq]
      exact ⟨hb.tiles, hb.players, hb.total⟩

private theorem Effect.conserved {base : InventoryType → Int} (hw : 0 < width) (hh : 0 < height)
    (he : Effect cfg a s s') (hp : Placed width height s) (h : Conserved base s) : Conserved base s' := by
  have hcongr : ∀ {s' : Server}, s'.mapX = s.mapX → s'.mapY = s.mapY → s'.map = s.map →
      s'.playerHeap = s.playerHeap → s'.ledger = s.ledger → s.nextAddr ≤ s'.nextAddr → Conserved base s' :=
    fun hX hY hmap hheap hledger haddr =>
      h.congr hX hY (fun t => by rw [hmap]) (fun q => by rw [hheap]) hledger hp.fresh haddr
  have hinv : ∀ (p : Addr) {f : Player → Player}, (∀ r, (f r).inv = r.inv) → Conserved base (s.modPlayer p f) := by
    intro p f hf
    refine h.congr rfl rfl (fun _ => rfl) (fun q => ?_) rfl hp.fresh (Nat.le_refl _)
    rw [modPlayer_heap]
    split
    · cases s.playerHeap q <;> simp [hf]
    · rfl
  have htile : ∀ {p : Addr} {pl : Player}, s.playerHeap p = some pl → s.mapIndex pl.pos < s.mapX * s.mapY :=
    fun hpl => mapIndex_lt (hp.onMap hpl)
  cases he with
  | quiet _ _ _ _ _ _ haddr => exact hcongr rfl rfl rfl rfl rfl haddr
  | takeRemovals => exact hcongr rfl rfl rfl rfl rfl (Nat.le_refl _)
  | serverBuffer b hb => exact hcongr rfl rfl rfl rfl rfl (Nat.le_refl _)
  | enter hname ht hfull =>
    rw [enterGame_eq]
    have htile := h.onTile cfg hp
    exact ⟨(htile _ _ _ _).tiles, (htile _ _ _ _).players, (htile _ _ _ _).total⟩
  | schedule hc hcl hb => exact hcongr rfl rfl rfl rfl rfl (Nat.le_refl _)
  | kill hc hcl hpl =>
    refine h.modPlayer (hp.lt_nextAddr hpl) hpl (fun r => ?_) fun r => ?_
    · have := h.players r _ _ hpl
      cases r <;> simp_all [Inventory.get]
    · cases r <;> simp [Inventory.get, Entry.balance]
  | eat hi hcl hpl hfood =>
    refine h.modPlayer (hp.lt_nextAddr hpl) hpl (fun r => ?_) fun r => ?_
    · have := h.players r _ _ hpl
      cases r with
      | nourriture => exact Int.sub_nonneg_of_le hfood
      | _ => exact this
    · cases r with
      | nourriture => simp only [Inventory.get, Entry.balance, if_true]; omega
      | _ => simp [Inventory.get, Entry.balance]
  | die hi hcl hpl hfood => exact h.die hp hpl hfood
  | pop hi hcl hcount => exact hcongr rfl rfl rfl rfl rfl (Nat.le_refl _)
  | clearArg hcl hq => exact hcongr rfl rfl rfl rfl rfl (Nat.le_refl _)
  | turn dir hpl => exact hinv _ fun _ => rfl
  | move hpl hql => exact h.places hp.fresh (movePlayer_same _ _ _)
  | take hpl hr =>
    refine h.transfer (hp.lt_nextAddr hpl) hpl (htile hpl) (fun r => ?_) (fun r => ?_) fun r => ?_
    · have := h.tiles r _ (htile hpl)
      simp only [Inventory.get_add]
      split
      · subst_vars; omega
      · exact this
    · have := h.players r _ _ hpl
      simp only [Inventory.get_add]
      split <;> omega
    · simp only [Inventory.get_add]
      split <;> omega
  | put hpl hr =>
    refine h.transfer (hp.lt_nextAddr hpl) hpl (htile hpl) (fun r => ?_) (fun r => ?_) fun r => ?_
    · have := h.tiles r _ (htile hpl)
      simp only [Inventory.get_add]
      split <;> omega
    · have := h.players r _ _ hpl
      simp only [Inventory.get_add]
      split
      · subst_vars; omega
      · exact this
    · simp only [Inventory.get_add]
      split <;> omega
  | pay hpl hcan =>
    have hlacks := gameCheckCanIncantation_items hcan
    refine h.modTile (htile hpl) (fun r => ?_) fun r => ?_
    · have := Inventory.lacks_false hlacks r
      simp only [Inventory.get_minus]
      omega
    · simp only [Inventory.get_minus, Entry.balance]
      omega
  | front hpl hc hcl hb => exact hcongr rfl rfl rfl rfl rfl (Nat.le_refl _)
  | levelUp hpl hlevel => exact hinv _ fun _ => rfl
  | complete p level =>
    refine ⟨h.tiles, h.players, fun r => ?_⟩
    rw [booked_record]
    exact (h.total r).trans (congrArg _ (Int.add_zero _).symm)
  | spawn n counts =>
    have hsz : s.mapIndex ⟨n % s.mapSize % s.mapX, n % s.mapSize / s.mapX⟩ < s.mapX * s.mapY := by
      rw [mapIndex_coords]
      refine Nat.mod_lt _ (Nat.mul_pos ?_ ?_)
      · rw [hp.mapX]; exact hw
      · rw [hp.mapY]; exact hh
    refine h.modTile hsz (fun r => ?_) fun r => ?_
    · have := h.tiles r _ hsz
      simp only [Inventory.get_plus, get_inventoryOf]
      omega
    · simp only [Inventory.get_plus, Entry.balance]
      omega

/-! ### Runs -/

private theorem conserved_init (teams : List String) (nbClients : Nat) (counts : Nat → InventoryType → Nat) :
    Conserved (fun r => (gameInit cfg width height teams nbClients counts).total r)
      (gameInit cfg width height teams nbClients counts) := by
  refine ⟨fun r t _ => ?_, fun r p pl h => (by cases h), fun r => (Int.add_zero _).symm⟩
  simp [gameInit, gameInitMap]

/-- What resources owe to the ledger in a state `s`, after a start in `s₀`. -/
structure ResourcesOK (cfg : Config) (width height : Nat) (s₀ s : Server) : Prop where
  /-- No tile and no player has a negative count. -/
  tiles : ∀ r, ∀ t < width * height, 0 ≤ (s.map t).items.get r
  players : ∀ r p pl, s.playerHeap p = some pl → 0 ≤ pl.inv.get r
  /-- What there is now is what there was at the start and what the ledger accounts for. -/
  total : ∀ r, s.total r = s₀.total r + s.booked r
  /-- A command other than `incantation`, run here by any player, keeps every total and books nothing. -/
  command : ∀ c b p pl, s.playerHeap p = some pl → ∀ fuel ev type s', type ≠ .incantation →
    runCommand cfg fuel (s.setClientBuffer c b) p pl ev type = some s' →
    (∀ r, s'.total r = s.total r) ∧ s'.ledger = s.ledger
  /-- The command `incantation` books the payment, and only when its check has passed. -/
  incantation : ∀ c b p pl, s.playerHeap p = some pl → ∀ origin s',
    commandIncantation cfg (s.setClientBuffer c b) p pl origin = some s' →
    s'.ledger = s.ledger ∨ gameCheckCanIncantation (s.setClientBuffer c b) pl true = some .success ∧
      s'.ledger = s.ledger ++ [.ritual p pl.level]
  /-- The completion of an incantation keeps every total. -/
  completion : ∀ c b p pl, s.playerHeap p = some pl → ∀ arg s',
    commandRealIncantation (s.setClientBuffer c b) p pl arg = some s' → ∀ r, s'.total r = s.total r

private theorem Conserved.effects {base : InventoryType → Int} (hw : 0 < width) (hh : 0 < height)
    (he : Effects cfg a s s') (hp : Placed width height s) (h : Conserved base s) :
    Placed width height s' ∧ Conserved base s' := by
  induction he with
  | refl => exact ⟨hp, h⟩
  | tail _ he ih => exact ⟨he.placed hw hh ih.1, he.conserved hw hh ih.1 ih.2⟩

private theorem Conserved.resourcesOK {s₀ : Server} (hw : 0 < width) (hh : 0 < height) (hp : Placed width height s)
    (h : Conserved (fun r => s₀.total r) s) : ResourcesOK cfg width height s₀ s := by
  have hset : ∀ c b, Placed width height (s.setClientBuffer c b) ∧
      Conserved (fun r => s₀.total r) (s.setClientBuffer c b) := fun c b =>
    ⟨hp.congr rfl rfl rfl rfl (Nat.le_refl _),
      h.congr rfl rfl (fun _ => rfl) (fun _ => rfl) rfl hp.fresh (Nat.le_refl _)⟩
  refine ⟨?_, h.players, h.total, ?_, ?_, ?_⟩
  · have := h.tiles
    rwa [hp.mapX, hp.mapY] at this
  · intro c b p pl hpl fuel ev type s' htype hrun
    have hctl := runCommand_control htype hrun
    have hledger : s'.ledger = s.ledger := by rw [hctl.rest]; rfl
    have heff : Effects cfg (.playSlot {} 0) (s.setClientBuffer c b) s' := runCommand_effects hpl hrun
    have h' := (Conserved.effects hw hh heff (hset c b).1 (hset c b).2).2
    refine ⟨fun r => ?_, hledger⟩
    rw [h'.total, h.total, Server.booked, hledger, Server.booked]
  · intro c b p pl hpl origin s' hrun
    obtain rfl | ⟨hret, rfl⟩ := commandIncantation_cases hrun
    · exact Or.inl rfl
    · refine Or.inr ⟨hret, ?_⟩
      rw [queueCompletion_rest]
      rfl
  · intro c b p pl hpl arg s' hrun r
    have heff : Effects cfg (.playSlot {} 0) (s.setClientBuffer c b) s' := commandRealIncantation_effects hrun
    have h' := (Conserved.effects hw hh heff (hset c b).1 (hset c b).2).2
    have hbooked : s'.booked r = s.booked r := by
      obtain ⟨a, -, rfl | ⟨-, -, s₁, h₁, rfl⟩⟩ := commandRealIncantation_cases hrun
      · rfl
      · have hledger : s₁.ledger = s.ledger := by rw [levelUpLoop_control h₁]; rfl
        change (s₁.record _).booked r = _
        rw [booked_record, Server.booked, hledger]
        exact Int.add_zero _
    rw [h'.total, h.total, hbooked]

/-- In every state a run of the game reaches, the ledger accounts for every unit of every resource. -/
theorem resources_conserved (cfg : Config) {width height : Nat} (hw : 0 < width) (hh : 0 < height)
    (teams : List String) (nbClients : Nat) (counts : Nat → InventoryType → Nat) (as : List GameAction) {s : Server}
    (h : run (gameStep cfg) (gameInit cfg width height teams nbClients counts) as = some s) :
    ResourcesOK cfg width height (gameInit cfg width height teams nbClients counts) s := by
  obtain ⟨-, hp, hc⟩ := game_invariant (I := fun s => Placed width height s ∧
      Conserved (fun r => (gameInit cfg width height teams nbClients counts).total r) s)
    (fun _ _ _ he _ hI => ⟨he.placed hw hh hI.1, he.conserved hw hh hI.1 hI.2⟩) (buffersWF_init _ _ _)
    ⟨placed_init _ _ _ _ _, conserved_init _ _ _⟩ h
  exact hc.resourcesOK hw hh hp

/-- A player takes a stone, another one pays for an incantation, and the first is killed and removed. -/
theorem resources_conserved_ritual :
    ∃ s, run (gameStep shippedConfig) (gameInit shippedConfig 1 1 ["red"] 2 fun _ _ => 2)
        [.register 0 4 "red" ⟨0, 0, 0⟩, .register 1 5 "red" ⟨0, 0, 0⟩, .execute 0 4 "prend" (some "sibur"),
          .execute 1 5 "incantation" none, .tick 7, .playSlot {} 0, .playSlot {} 1, .kill 4, .playSlot {} 0] =
        some s ∧ s.ledger.length = 3 ∧
      ResourcesOK shippedConfig 1 1 (gameInit shippedConfig 1 1 ["red"] 2 fun _ _ => 2) s := by
  obtain ⟨s, hs, hlen⟩ : ∃ s, run (gameStep shippedConfig) (gameInit shippedConfig 1 1 ["red"] 2 fun _ _ => 2)
      [.register 0 4 "red" ⟨0, 0, 0⟩, .register 1 5 "red" ⟨0, 0, 0⟩, .execute 0 4 "prend" (some "sibur"),
        .execute 1 5 "incantation" none, .tick 7, .playSlot {} 0, .playSlot {} 1, .kill 4, .playSlot {} 0] = some s ∧
      s.ledger.length = 3 := by
    rw [← Option.map_eq_some_iff]
    decide
  exact ⟨s, hs, hlen, resources_conserved shippedConfig (by decide) (by decide) _ _ _ _ hs⟩

end Zappy

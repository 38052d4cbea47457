import Zappy.Capacity
import Zappy.Elevation
import Zappy.Notices
import Zappy.Vision

/-!
# The snapshot of the server (`m_serialize_server`)

The document that an observer is to get: the tiles of the map row by row, the players in the order of the table of
clients, and the counters of the teams.  Its three parts are kept apart from each other in the server, and they agree
because the lists of the tiles, the table and the counters do.  The loop over the table reads the player of every
slot, of an empty one too.
-/

namespace Zappy

open LinkedList Run Slots Traverse

variable {cfg : Config} {s : Server} {width height : Nat}

/-- A document of cJSON, its numbers as the integers they stand for. -/
inductive CJson where
  | number (n : Int)
  | string (text : String)
  | array (items : List CJson)
  | object (fields : List (String × CJson))

/-- The value of a key. -/
def CJson.field (key : String) : CJson → Option CJson
  | .object fields => (fields.find? fun f => f.1 == key).map Prod.snd
  | _ => none

/-! ### Serialization -/

/-- `m_serialize_inventory`. -/
def serializeInventory (inv : Inventory) : CJson := .object (inv.fields.map fun f => (f.1, .number f.2))

/-- The loop of `m_serialize_tile`. -/
def serializeIds (s : Server) (it : Option Addr) : Option (List Fd) :=
  forEach (fun parr p => (s.playerHeap p).map fun pl => parr ++ [pl.id]) (fun _ p => s.nextOnTile p) s.nextAddr [] it

/-- `m_serialize_tile`. -/
def serializeTile (s : Server) (t : Tile) : Option CJson :=
  (serializeIds s t.players).map fun parr =>
    .object [("x", .number t.pos.x), ("y", .number t.pos.y), ("resources", serializeInventory t.items),
      ("players", .array (parr.map fun id => .number (id : Nat)))]

/-- `m_serialize_player`. -/
def serializePlayer (s : Server) (p : Player) : Option CJson :=
  (s.teams[p.teamId]?).map fun team =>
    .object [("id", .number p.id), ("position", .object [("x", .number p.pos.x), ("y", .number p.pos.y)]),
      ("orientation", .number p.dir.value), ("level", .number p.level), ("team", .string team.name),
      ("inventory", serializeInventory p.inv)]

/-- The entry of a team. -/
def serializeTeam (t : Team) : CJson :=
  .object [("name", .string t.name), ("player_count", .number t.currentPlayers),
    ("remaining_connections", .number (t.maxPlayers - t.currentPlayers))]

/-- The tiles in the order of the two loops over the map. -/
def Server.rowMajor (s : Server) : List Position :=
  (List.range s.mapY).flatMap fun y => (List.range s.mapX).map fun x => ⟨x, y⟩

/-- One turn of the loop over the table: reading an empty slot has no result. -/
def serializeSlot (s : Server) (slot : Option Addr) : Option CJson :=
  slot.bind fun c => (s.playerOf c).bind (serializePlayer s)

/-- `m_serialize_server`, for the time unit `t` of the clock. -/
def serializeServer (t : Int) (s : Server) : Option CJson :=
  (s.rowMajor.mapM fun pos => serializeTile s (s.map (s.mapIndex pos))).bind fun tiles =>
    (s.clients.mapM (serializeSlot s)).map fun players =>
      .object [("map", .object [("width", .number s.mapX), ("height", .number s.mapY), ("tiles", .array tiles)]),
        ("players", .array players),
        ("game", .object [("tick", .number t), ("time_unit", .number s.now),
          ("teams", .array (s.teams.map serializeTeam))])]

/-! ### Consistency -/

/-- `l` has the live players with a property, each once. -/
def Server.Lists (s : Server) (P : Player → Prop) (l : List Addr) : Prop :=
  l.Nodup ∧ ∀ p, p ∈ l ↔ ∃ pl, s.playerHeap p = some pl ∧ P pl

/-- The descriptor of a player. -/
def Server.idOf (s : Server) (p : Addr) : Option Fd := (s.playerHeap p).map Player.id

/-- What a document says of the server. -/
structure Consistent (s : Server) (j : CJson) : Prop where
  /-- The players are the live ones, each once. -/
  players : ∃ live entries, s.Lists (fun _ => True) live ∧ j.field "players" = some (.array entries) ∧
    (live.mapM fun p => (s.playerHeap p).bind (serializePlayer s)) = some entries
  /-- There is one tile for each position, row by row, and its players are those that stand there. -/
  tiles : ∃ entries, (j.field "map").bind (CJson.field "tiles") = some (.array entries) ∧
    entries.length = s.mapX * s.mapY ∧ ∀ x < s.mapX, ∀ y < s.mapY, ∃ tile, entries[y * s.mapX + x]? = some tile ∧
      tile.field "x" = some (.number x) ∧ tile.field "y" = some (.number y) ∧
      ∃ standing ids, s.Lists (fun pl => pl.pos = ⟨x, y⟩) standing ∧ standing.mapM s.idOf = some ids ∧
        tile.field "players" = some (.array (ids.map fun id => .number (id : Nat)))
  /-- A team counts its live players, and the places it has left are the rest. -/
  teams : ∃ entries, (j.field "game").bind (CJson.field "teams") = some (.array entries) ∧
    entries.length = s.teams.length ∧ ∀ (i : Nat) (t : Team), s.teams[i]? = some t →
      ∃ entry members, entries[i]? = some entry ∧ s.Lists (fun pl => pl.teamId = i) members ∧
        entry.field "name" = some (.string t.name) ∧
        entry.field "player_count" = some (.number members.length) ∧
        ∃ remaining, entry.field "remaining_connections" = some (.number remaining) ∧
          members.length + remaining = t.maxPlayers

/-- The serialization comes to its end, with a document that says what is true. -/
def SnapshotOK (t : Int) (s : Server) : Prop := ∃ j, serializeServer t s = some j ∧ Consistent s j

/-! ### The tiles -/

/-- The loop over a tile's list collects the descriptors of its players. -/
private theorem serializeIds_eq {it : Option Addr} {l : List Addr} (hl : IsList s.nextOf s.prevOf it l)
    (hlive : ∀ q ∈ l, (s.playerHeap q).isSome) (hlen : l.length ≤ s.nextAddr) :
    serializeIds s it = l.mapM s.idOf := by
  unfold serializeIds
  refine (forEach_eq_foldlM hl.seg ?_ (fun _ _ _ _ => rfl) hlen).trans ?_
  case refine_1 => exact fun q hq => nextOnTile_eq (hlive q hq)
  have hloop : ∀ (l : List Addr) (parr : List Fd),
      l.foldlM (fun parr p => (s.playerHeap p).map fun pl => parr ++ [pl.id]) parr =
        (l.mapM s.idOf).map fun ids => parr ++ ids := by
    intro l
    induction l with
    | nil => exact fun parr => by simp
    | cons q l ih =>
      intro parr
      rw [List.foldlM_cons, List.mapM_cons, Server.idOf]
      cases s.playerHeap q with
      | none => rfl
      | some pl =>
        simp only [Option.map_some, Option.bind_eq_bind, Option.bind_some, ih]
        cases l.mapM s.idOf with
        | none => rfl
        | some ids => simp
  rw [hloop l []]
  simp

/-- The tile at index `i` is the one in column `i % width` and row `i / width`. -/
private theorem rowMajor_eq (s : Server) :
    s.rowMajor = (List.range (s.mapY * s.mapX)).map fun i => ⟨i % s.mapX, i / s.mapX⟩ := by
  unfold Server.rowMajor
  induction s.mapY with
  | zero => simp
  | succ n ih =>
    rw [List.range_succ, List.flatMap_append, ih, Nat.succ_mul, List.range_add, List.map_append, List.map_map,
      List.flatMap_singleton]
    congr 1
    refine List.map_congr_left fun x hx => ?_
    have hxy := index_coords (y := n) (List.mem_range.1 hx)
    rw [Function.comp_apply, hxy.1, hxy.2]

/-- Every tile of the map is serialized, with the players that stand on it. -/
private theorem Placed.serializeTile (h : Placed width height s) {x y : Nat} (hx : x < width) (hy : y < height) :
    ∃ standing ids, s.Lists (fun pl => pl.pos = ⟨x, y⟩) standing ∧ standing.mapM s.idOf = some ids ∧
      serializeTile s (s.map (y * width + x)) = some (.object [("x", .number x), ("y", .number y),
        ("resources", serializeInventory (s.map (y * width + x)).items),
        ("players", .array (ids.map fun id => .number (id : Nat)))]) := by
  obtain ⟨L, hL⟩ := h.tileListsOK.lists
  obtain ⟨hlist, hlive, hcount⟩ := hL x hx y hy
  have hlen : (L x y).length ≤ s.nextAddr := length_le_of_lt hlist.nodup fun q hq => by
    by_contra hle
    have hq' := hlive q hq
    rw [h.fresh q (Nat.le_of_not_lt hle)] at hq'
    cases hq'
  obtain ⟨ids, hids⟩ := Option.isSome_iff_exists.1 (show ((L x y).mapM s.idOf).isSome from
    mapM_isSome.2 fun q hq => by rw [Server.idOf, Option.isSome_map]; exact hlive q hq)
  refine ⟨L x y, ids, ⟨hlist.nodup, fun q => ?_⟩, hids, ?_⟩
  · constructor
    · intro hq
      obtain ⟨pl, hpl⟩ := Option.isSome_iff_exists.1 (hlive q hq)
      refine ⟨pl, hpl, ?_⟩
      by_contra hpos
      have := hcount q pl hpl
      rw [if_neg hpos] at this
      exact List.count_eq_zero.1 this hq
    · rintro ⟨pl, hpl, hpos⟩
      have := hcount q pl hpl
      rw [if_pos hpos] at this
      exact List.count_pos_iff.1 (by omega)
  · rw [Zappy.serializeTile, serializeIds_eq hlist hlive hlen, hids, h.tileListsOK.tilePos x hx y hy]
    rfl

/-- The loops over the map serialize it row by row. -/
private theorem Placed.serializeTiles (h : Placed width height s) :
    ∃ entries, (s.rowMajor.mapM fun pos => Zappy.serializeTile s (s.map (s.mapIndex pos))) = some entries ∧
      entries.length = width * height ∧ ∀ x < width, ∀ y < height,
        entries[y * width + x]? = Zappy.serializeTile s (s.map (y * width + x)) := by
  have hrow := rowMajor_eq s
  rw [h.mapX, h.mapY] at hrow
  have hindex : ∀ i, s.mapIndex ⟨i % width, i / width⟩ = i := fun i => by
    rw [Server.mapIndex, h.mapX, Nat.div_add_mod']
  rw [hrow, List.mapM_map]
  simp only [Function.comp_def, hindex]
  obtain ⟨entries, hentries⟩ := Option.isSome_iff_exists.1 (show ((List.range (height * width)).mapM
      fun i => Zappy.serializeTile s (s.map i)).isSome from mapM_isSome.2 fun i hi => by
    have hi := List.mem_range.1 hi
    have hw : 0 < width := Nat.pos_of_ne_zero fun h0 => by simp [h0] at hi
    obtain ⟨standing, ids, -, -, htile⟩ :=
      h.serializeTile (Nat.mod_lt i hw) (Nat.div_lt_of_lt_mul (by rwa [Nat.mul_comm]))
    rw [Nat.div_add_mod'] at htile
    rw [htile]
    rfl)
  refine ⟨entries, hentries, ?_, fun x hx y hy => ?_⟩
  · rw [length_eq_of_mapM hentries, List.length_range, Nat.mul_comm]
  · have hlt : y * width + x < height * width := by
      calc y * width + x < y * width + width := by omega
        _ = (y + 1) * width := by rw [Nat.succ_mul]
        _ ≤ height * width := Nat.mul_le_mul_right _ hy
    rw [mapM_getElem? hentries, List.getElem?_range hlt]
    rfl

/-! ### The players and the teams -/

/-- The players of the clients in the table, in its order. -/
def Server.livePlayers (s : Server) : List Addr :=
  s.live.map fun c => ((s.clientHeap c).map Client.player).getD 0

private theorem Registered.player_of (h : Registered s) {c : Addr} (hc : c ∈ s.live) :
    ∃ cl pl, s.clientHeap c = some cl ∧ s.playerHeap cl.player = some pl ∧ s.playerOf c = some pl ∧
      ((s.clientHeap c).map Client.player).getD 0 = cl.player := by
  obtain ⟨cl, pl, hcl, hpl, -⟩ := h.client_heap hc
  exact ⟨cl, pl, hcl, hpl, by rw [Server.playerOf, hcl, Option.bind_some, hpl], by rw [hcl]; rfl⟩

/-- The players of the table are the live ones, each once. -/
private theorem Registered.lists_live (h : Registered s) : s.Lists (fun _ => True) s.livePlayers := by
  refine ⟨List.Nodup.map_on ?_ h.nodup, fun p => ?_⟩
  · intro c hc d hd hplayer
    obtain ⟨cl, pl, hcl, -, -, hcp⟩ := h.player_of hc
    obtain ⟨dl, ql, hdl, -, -, hdp⟩ := h.player_of hd
    rw [hcp, hdp] at hplayer
    exact h.distinct c hc d hd cl.socketFd dl.socketFd cl.player (by rw [Server.clientKey, hcl]; rfl)
      (by rw [Server.clientKey, hdl, hplayer]; rfl)
  · simp only [Server.livePlayers, List.mem_map, and_true]
    constructor
    · rintro ⟨c, hc, rfl⟩
      obtain ⟨cl, pl, -, hpl, -, hcp⟩ := h.player_of hc
      exact ⟨pl, by rw [hcp]; exact hpl⟩
    · rintro ⟨pl, hpl⟩
      obtain ⟨c, hc, fd, hk⟩ := h.owned p (by simp [Server.playerKey, hpl])
      obtain ⟨cl, pl', hcl, -, -, hcp⟩ := h.player_of hc
      simp only [Server.clientKey, hcl, Option.map_some, Option.some.injEq, Prod.mk.injEq] at hk
      exact ⟨c, hc, hcp.trans hk.2⟩

/-- With no slot empty the loop over the table serializes every live player. -/
private theorem Registered.serializeSlots (h : Registered s) (hfull : ∀ slot ∈ s.clients, slot.isSome) :
    ∃ entries, s.clients.mapM (serializeSlot s) = some entries ∧
      (s.livePlayers.mapM fun p => (s.playerHeap p).bind (serializePlayer s)) = some entries := by
  have hclients : s.clients = s.live.map some := by
    unfold Server.live
    generalize s.clients = slots at hfull ⊢
    induction slots with
    | nil => rfl
    | cons slot slots ih =>
      rw [List.forall_mem_cons] at hfull
      obtain ⟨c, rfl⟩ := Option.isSome_iff_exists.1 hfull.1
      rw [List.reduceOption_cons_of_some, List.map_cons, ← ih hfull.2]
  have hslots : s.clients.mapM (serializeSlot s) =
      s.livePlayers.mapM fun p => (s.playerHeap p).bind (serializePlayer s) := by
    rw [hclients, Server.livePlayers, List.mapM_map, List.mapM_map]
    refine mapM_congr fun c hc => ?_
    obtain ⟨cl, pl, -, hpl, hc', hcp⟩ := h.player_of hc
    simp only [Function.comp_apply, serializeSlot, Option.bind_some, hcp, hc', hpl]
  rw [hslots]
  obtain ⟨entries, hentries⟩ := Option.isSome_iff_exists.1 (show
      (s.livePlayers.mapM fun p => (s.playerHeap p).bind (serializePlayer s)).isSome from mapM_isSome.2 fun p hp => by
    obtain ⟨c, hc, rfl⟩ := List.mem_map.1 hp
    obtain ⟨cl, pl, hcl, hpl, -, hcp⟩ := h.player_of hc
    obtain ⟨i, hi, hteam⟩ := h.team c hc
    obtain rfl := Option.some.inj ((teamOf_eq hcl hpl).symm.trans hteam)
    rw [hcp, hpl, Option.bind_some, serializePlayer, List.getElem?_eq_getElem hi]
    rfl)
  exact ⟨entries, hentries, hentries⟩

/-- A team counts its live players. -/
private theorem Registered.lists_team (h : Registered s) {i : Nat} {t : Team} (ht : s.teams[i]? = some t) :
    ∃ members, s.Lists (fun pl => pl.teamId = i) members ∧ t.currentPlayers = members.length := by
  have hlive := h.lists_live
  refine ⟨s.livePlayers.filter fun p => (s.playerHeap p).map Player.teamId = some i,
    ⟨hlive.1.filter _, fun p => ?_⟩, ?_⟩
  · simp only [List.mem_filter, hlive.2, and_true, decide_eq_true_eq, Option.map_eq_some_iff]
    constructor
    · rintro ⟨-, pl, hpl, hteam⟩
      exact ⟨pl, hpl, hteam⟩
    · rintro ⟨pl, hpl, hteam⟩
      exact ⟨⟨pl, hpl⟩, pl, hpl, hteam⟩
  · rw [h.count i t ht, ← List.countP_eq_length_filter, Server.livePlayers, List.countP_map]
    congr 1
    refine List.countP_congr fun c hc => ?_
    obtain ⟨cl, pl, hcl, hpl, -, hcp⟩ := h.player_of hc
    simp only [Function.comp_apply, hcp, hpl, teamOf_eq hcl hpl, Option.map_some]

/-! ### The document -/

variable {t : Int}

/-- With no slot empty the snapshot is complete and true. -/
private theorem snapshotOK_of_full (hp : Placed width height s) (h : Registered s)
    (hfull : ∀ slot ∈ s.clients, slot.isSome) : SnapshotOK t s := by
  obtain ⟨tiles, htiles, hlength, htile⟩ := hp.serializeTiles
  obtain ⟨players, hplayers, hlive⟩ := h.serializeSlots hfull
  refine ⟨_, by rw [serializeServer, htiles, hplayers]; rfl, ?_⟩
  constructor
  case players => exact ⟨s.livePlayers, players, h.lists_live, rfl, hlive⟩
  case tiles =>
    refine ⟨tiles, rfl, by rw [hlength, hp.mapX, hp.mapY], fun x hx y hy => ?_⟩
    rw [hp.mapX] at hx
    rw [hp.mapY] at hy
    obtain ⟨standing, ids, hstanding, hids, hserialized⟩ := hp.serializeTile hx hy
    refine ⟨_, by rw [hp.mapX, htile x hx y hy, hserialized], rfl, rfl, standing, ids, hstanding, hids, rfl⟩
  case teams =>
    refine ⟨_, rfl, List.length_map _, fun i team hteam => ?_⟩
    obtain ⟨members, hmembers, hcount⟩ := h.lists_team hteam
    refine ⟨serializeTeam team, members, by rw [List.getElem?_map, hteam]; rfl, hmembers, rfl, ?_,
      team.maxPlayers - team.currentPlayers, rfl, by omega⟩
    rw [← hcount]
    rfl

/-- The loop over the table comes to its end only if it meets no empty slot. -/
private theorem full_of_serializeServer {j : CJson} (h : serializeServer t s = some j) :
    ∀ slot ∈ s.clients, slot.isSome := by
  intro slot hslot
  simp only [serializeServer, Option.bind_eq_some_iff, Option.map_eq_some_iff] at h
  obtain ⟨tiles, -, players, hplayers, -⟩ := h
  have hserialized := mapM_isSome.1 (show (s.clients.mapM (serializeSlot s)).isSome by rw [hplayers]; rfl) slot hslot
  cases slot with
  | none => cases hserialized
  | some c => rfl

/-- In every state that a run of the game reaches, the snapshot is complete and true if and only if no slot of the
table is empty. -/
theorem snapshot_iff_full_table (cfg : Config) {width height : Nat} (hw : 0 < width) (hh : 0 < height)
    (teams : List String) (nbClients : Nat) (counts : Nat → InventoryType → Nat) (as : List GameAction) {s : Server}
    (h : run (gameStep cfg) (gameInit cfg width height teams nbClients counts) as = some s) (t : Int) :
    SnapshotOK t s ↔ ∀ slot ∈ s.clients, slot.isSome := by
  constructor
  · rintro ⟨j, hj, -⟩
    exact full_of_serializeServer hj
  · exact snapshotOK_of_full (placed_of_run hw hh h).2 (registered_of_run h)

/-- Two places, both taken. -/
theorem snapshot_iff_full_table_two :
    ∃ s, run (gameStep shippedConfig) (gameInit shippedConfig 2 1 ["red"] 2 fun _ _ => 0)
        [.register 0 4 "red" ⟨0, 0, 0⟩, .register 1 5 "red" ⟨1, 0, 0⟩] = some s ∧ SnapshotOK 10 s := by
  obtain ⟨s, hs, hall⟩ : ∃ s, run (gameStep shippedConfig) (gameInit shippedConfig 2 1 ["red"] 2 fun _ _ => 0)
      [.register 0 4 "red" ⟨0, 0, 0⟩, .register 1 5 "red" ⟨1, 0, 0⟩] = some s ∧
        s.clients.all Option.isSome = true := ⟨_, rfl, by decide⟩
  exact ⟨s, hs, (snapshot_iff_full_table shippedConfig (by decide) (by decide) _ _ _ _ hs 10).2
    (List.all_eq_true.1 hall)⟩

/-- Before the first login, and when a player has died and nobody has taken its slot. -/
theorem empty_slot_read :
    (∃ s, run (gameStep shippedConfig) (gameInit shippedConfig 1 1 ["red"] 1 fun _ _ => 0) [] = some s ∧
      ¬ SnapshotOK 10 s) ∧
    ∃ s, run (gameStep shippedConfig) (gameInit shippedConfig 1 1 ["red"] 2 fun _ _ => 0)
        [.register 0 4 "red" ⟨0, 0, 0⟩, .register 1 5 "red" ⟨0, 0, 0⟩, .kill 4, .playSlot {} 0] = some s ∧
      ¬ SnapshotOK 10 s := by
  have hnone : ∀ {s : Server}, serializeServer 10 s = none → ¬ SnapshotOK 10 s := by
    rintro s hs ⟨j, hj, -⟩
    rw [hs] at hj
    cases hj
  exact ⟨⟨_, rfl, hnone rfl⟩, _, rfl, hnone rfl⟩

end Zappy

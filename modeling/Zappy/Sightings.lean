import Zappy.Placement
import Zappy.Vision

/-!
# Whom a player sees (`build_tile_vision`)

An entry of the vision contains `"player"` when the first player of the tile's list has another descriptor than
the viewer and the viewer itself has a successor in the list of its own tile.  Whether anybody else stands on the
tile is another question, and the two have the same answer only for some orders of arrival.
-/

namespace Zappy

open Run Traverse

variable {s : Server} {pl : Player} {tile : Position}

/-- Somebody other than `p` stands on the tile. -/
def OthersOn (s : Server) (p : Addr) (tile : Position) : Prop :=
  ∃ q r, q ≠ p ∧ s.playerHeap q = some r ∧ r.pos = tile

/-- The list of the tile begins with a player of another descriptor, and `pl` is not the last one in the list of
its own tile. -/
def LinksShow (s : Server) (pl : Player) (tile : Position) : Prop :=
  (∃ q first, (s.map (s.mapIndex tile)).players = some q ∧ s.playerHeap q = some first ∧ first.id ≠ pl.id) ∧
    pl.nextOnTile ≠ none

private theorem mem_itemNames {item : String} {c : Prop} [Decidable c] {x : String} (hne : item ≠ x) :
    item ∉ (if c then [x] else []) := by
  by_cases hc : c
  · rw [if_pos hc, List.mem_singleton]
    exact hne
  · rw [if_neg hc]
    exact List.not_mem_nil

/-- An entry shows a player exactly if the links that the code looks at do. -/
private theorem player_mem_iff {tile : Tile} {contents : List String} (h : buildTileVision s tile pl = some contents) :
    "player" ∈ contents ↔
      (∃ q first, tile.players = some q ∧ s.playerHeap q = some first ∧ first.id ≠ pl.id) ∧ pl.nextOnTile ≠ none := by
  unfold buildTileVision at h
  dsimp only at h
  generalize hseen : (if tile.items.nourriture > 0 then ["nourriture"] else []) ++ _ ++ _ ++ _ ++ _ ++ _ ++ _ = seen
    at h
  have hitems : "player" ∉ seen := by
    rw [← hseen]
    simp only [List.mem_append, not_or]
    refine ⟨⟨⟨⟨⟨⟨?_, ?_⟩, ?_⟩, ?_⟩, ?_⟩, ?_⟩, ?_⟩ <;> exact mem_itemNames (by decide)
  cases hhead : tile.players with
  | none =>
    rw [hhead] at h
    cases h
    constructor
    · intro hmem
      exact absurd hmem hitems
    · rintro ⟨⟨q, first, hq, -, -⟩, -⟩
      cases hq
  | some q =>
    rw [hhead, Option.map_eq_some_iff] at h
    obtain ⟨first, hfirst, rfl⟩ := h
    by_cases htest : first.id ≠ pl.id ∧ pl.nextOnTile ≠ none
    · rw [if_pos htest]
      constructor
      · intro _
        exact ⟨⟨q, first, rfl, hfirst, htest.1⟩, htest.2⟩
      · intro _
        exact List.mem_cons_self
    · rw [if_neg htest]
      constructor
      · intro hmem
        exact absurd hmem hitems
      · rintro ⟨⟨q', first', hq', hfirst', hid⟩, hnext⟩
        cases hq'
        cases hfirst.symm.trans hfirst'
        exact absurd ⟨hid, hnext⟩ htest

/-! ### Who stands where -/

variable {width height : Nat}

theorem Placed.size_pos (h : Placed width height s) {p : Addr} (hpl : s.playerHeap p = some pl) :
    0 < s.mapX ∧ 0 < s.mapY := by
  obtain ⟨hx, hy⟩ := h.onMap hpl
  exact ⟨Nat.lt_of_le_of_lt (Nat.zero_le _) hx, Nat.lt_of_le_of_lt (Nat.zero_le _) hy⟩

/-- A tile of the map has one index. -/
theorem mapIndex_inj {pos pos' : Position} (h : s.OnMap pos) (h' : s.OnMap pos')
    (he : s.mapIndex pos = s.mapIndex pos') : pos = pos' := by
  have h₁ := index_coords (y := pos.y) h.1
  have h₂ := index_coords (y := pos'.y) h'.1
  simp only [Server.mapIndex] at he
  rw [he] at h₁
  have hx : pos.x = pos'.x := h₁.1.symm.trans h₂.1
  have hy : pos.y = pos'.y := h₁.2.symm.trans h₂.2
  cases pos
  cases pos'
  simp_all

/-- The head of a tile's list is a live player that stands on the tile; without one nobody stands there. -/
theorem Placed.head (h : Placed width height s) {tile : Position} (ht : s.OnMap tile) :
    (∀ q, (s.map (s.mapIndex tile)).players = some q → ∃ r, s.playerHeap q = some r ∧ r.pos = tile) ∧
      ((s.map (s.mapIndex tile)).players = none → ∀ q r, s.playerHeap q = some r → r.pos ≠ tile) := by
  obtain ⟨-, -, -, L, hL⟩ := h
  have hlt := mapIndex_lt ht
  constructor
  · intro q hq
    have hmem := (hL.list _ hlt).head_mem hq
    obtain ⟨r, hr⟩ := Option.isSome_iff_exists.1 (hL.live hlt hmem)
    have hidx := ((hL.mem _ hlt q).1 hmem).2
    simp only [Server.posOf, hr, Option.map_some, Option.some.injEq] at hidx
    have hon := hL.onMap q r.pos (by simp [Server.posOf, hr]) (by simp [Server.posOf, hr])
    exact ⟨r, hr, mapIndex_inj hon ht hidx⟩
  · rintro hnone q r hr rfl
    have hmem := (hL.mem_own (p := q) (by simp [Server.posOf, hr]) hr).2
    have hnil : L (s.mapIndex r.pos) = [] := by
      have hseg := (hL.list _ hlt).seg
      rw [hnone] at hseg
      cases hl : L (s.mapIndex r.pos) with
      | nil => rfl
      | cons b l =>
        rw [hl] at hseg
        exact absurd hseg.1 (by simp)
    rw [hnil] at hmem
    cases hmem

/-- Links that show a player do not lie. -/
private theorem LinksShow.others (h : LinksShow s pl tile) (hp : Placed width height s) {p : Addr}
    (hpl : s.playerHeap p = some pl) (ht : s.OnMap tile) : OthersOn s p tile := by
  obtain ⟨⟨q, first, hq, hfirst, hid⟩, -⟩ := h
  obtain ⟨r, hr, hpos⟩ := (hp.head ht).1 q hq
  cases hfirst.symm.trans hr
  refine ⟨q, first, ?_, hfirst, hpos⟩
  rintro rfl
  cases hfirst.symm.trans hpl
  exact hid rfl

/-- The answer to `voir` has an entry for each tile of the view. -/
theorem Placed.vision (h : Placed width height s) {p : Addr} (hpl : s.playerHeap p = some pl) :
    ∃ vision, visionOf s pl = some vision := by
  obtain ⟨hx, hy⟩ := h.size_pos hpl
  have hentry : ∀ tile ∈ visionTiles s pl, (buildTileVision s (s.map (s.mapIndex tile)) pl).isSome := by
    intro tile htile
    unfold buildTileVision
    dsimp only
    cases hhead : (s.map (s.mapIndex tile)).players with
    | none => rfl
    | some q =>
      obtain ⟨r, hr, -⟩ := (h.head (onMap_of_mem_visionTiles hx hy htile)).1 q hhead
      exact (Option.isSome_map ..).trans (by rw [hr]; rfl)
  exact Option.isSome_iff_exists.1 (mapM_isSome.2 hentry)

/-! ### The entries of `voir` -/

/-- In every state that a run of the game reaches, `voir` has an entry for each tile of the view, and the entry
says whether somebody other than the viewer stands there exactly if nobody does or the links show it. -/
theorem player_seen_iff (cfg : Config) {width height : Nat} (hw : 0 < width) (hh : 0 < height)
    (teams : List String) (nbClients : Nat) (counts : Nat → InventoryType → Nat) (as : List GameAction) {s : Server}
    (h : run (gameStep cfg) (gameInit cfg width height teams nbClients counts) as = some s) (c : Addr)
    (b : EventBuffer) {p : Addr} {pl : Player} (hpl : s.playerHeap p = some pl) :
    ∃ vision : List (List String), commandVoir (s.setClientBuffer c b) pl = some ((s.setClientBuffer c b).send pl.id
        [("type", .str "response"), ("cmd", .str "voir"), ("vision", .vision vision)]) ∧
      vision.length = (visionTiles s pl).length ∧
      ∀ (i : Nat) (tile : Position) (contents : List String), (visionTiles s pl)[i]? = some tile →
        vision[i]? = some contents →
        (("player" ∈ contents ↔ OthersOn s p tile) ↔ (OthersOn s p tile → LinksShow s pl tile)) := by
  obtain ⟨-, hp⟩ := placed_of_run hw hh h
  obtain ⟨hx, hy⟩ := hp.size_pos hpl
  obtain ⟨vision, hvision⟩ := hp.vision hpl
  refine ⟨vision, ?_, length_eq_of_mapM hvision, ?_⟩
  · rw [commandVoir_eq]
    change (visionOf s pl).map _ = _
    rw [hvision]
    rfl
  · intro i tile contents htile hcontents
    have hon := onMap_of_mem_visionTiles hx hy (List.mem_of_getElem? htile)
    have hentry := mapM_getElem? hvision i
    rw [htile, hcontents, Option.bind_some] at hentry
    have hmem : "player" ∈ contents ↔ LinksShow s pl tile := player_mem_iff hentry.symm
    rw [hmem]
    constructor
    · intro hiff hothers
      exact hiff.2 hothers
    · intro himp
      exact ⟨fun hlinks => hlinks.others hp hpl hon, himp⟩

/-- Two players come to one tile. -/
def meeting : List GameAction := [.register 0 4 "red" ⟨0, 0, 0⟩, .register 1 5 "red" ⟨0, 0, 1⟩]

/-- A third one comes, and the second one, which has a successor and is not the head of the list, sees it. -/
theorem player_seen_iff_third : ∃ (s : Server) (pl : Player) (vision : List (List String)) (contents : List String),
    run (gameStep shippedConfig) (gameInit shippedConfig 2 2 ["red"] 3 fun _ _ => 0)
      (meeting ++ [.register 2 6 "red" ⟨0, 0, 1⟩]) = some s ∧
    s.playerHeap 3 = some pl ∧
    commandVoir (s.setClientBuffer 2 {}) pl = some ((s.setClientBuffer 2 {}).send pl.id
      [("type", .str "response"), ("cmd", .str "voir"), ("vision", .vision vision)]) ∧
    vision[0]? = some contents ∧ ("player" ∈ contents ↔ OthersOn s 3 ⟨0, 0⟩) := by
  have hrun : ((run (gameStep shippedConfig) (gameInit shippedConfig 2 2 ["red"] 3 fun _ _ => 0)
      (meeting ++ [.register 2 6 "red" ⟨0, 0, 1⟩])).bind fun s => (s.playerHeap 3).map fun pl =>
        ((visionTiles s pl)[0]?, (s.map (s.mapIndex ⟨0, 0⟩)).players, (s.playerHeap 5).map Player.id, pl.id,
          pl.nextOnTile)) = some (some ⟨0, 0⟩, some 5, some 6, 5, some 1) := by decide +kernel
  obtain ⟨s, hs, hmap⟩ := Option.bind_eq_some_iff.1 hrun
  obtain ⟨pl, hpl, hfacts⟩ := Option.map_eq_some_iff.1 hmap
  simp only [Prod.mk.injEq] at hfacts
  obtain ⟨htile, hhead, hfirst, hid, hnext⟩ := hfacts
  obtain ⟨first, hfirst, hfid⟩ := Option.map_eq_some_iff.1 hfirst
  have hlinks : LinksShow s pl ⟨0, 0⟩ := by
    refine ⟨⟨5, first, hhead, hfirst, ?_⟩, ?_⟩
    · rw [hfid, hid]
      decide
    · rw [hnext]
      simp
  obtain ⟨vision, hvoir, hlen, hentries⟩ :=
    player_seen_iff shippedConfig (by decide) (by decide) _ _ _ _ hs 2 {} hpl
  have hpos : 0 < vision.length := by
    rw [hlen]
    exact (List.getElem?_eq_some_iff.1 htile).1
  have hentry : vision[0]? = some vision[0] := List.getElem?_eq_getElem hpos
  exact ⟨s, pl, vision, vision[0], hs, hpl, hvoir, hentry, (hentries 0 _ _ htile hentry).2 fun _ => hlinks⟩

/-- The first player of a tile looks when a second one has come: the entry of their tile does not show it. -/
theorem last_player_sees_nobody : ∃ s pl, run (gameStep shippedConfig)
      (gameInit shippedConfig 2 2 ["red"] 3 fun _ _ => 0) meeting = some s ∧ s.playerHeap 1 = some pl ∧
    (visionTiles s pl)[0]? = some ⟨0, 0⟩ ∧ OthersOn s 1 ⟨0, 0⟩ ∧
    ((visionOf s pl).bind fun vision => vision[0]?) = some [] := by
  refine ⟨_, _, rfl, rfl, rfl, ⟨3, _, by decide, rfl, rfl⟩, rfl⟩

end Zappy

import Zappy.Elevation

/-!
# The rules of elevation on both sides (`ElevationRules.java`)

The client keeps its own copy of the requirements, a map from the level to be left.  The server reads `level_reqs`,
whose rows are meant for the levels from 1 on, at the index `level`: it asks a player of level `L` for what level
`L + 1` needs.  `ShiftHarmless` says when the two agree nevertheless.
-/

namespace Zappy

open LinkedList Run

variable {s : Server}

/-! ### The client's table -/

/-- `Resource`. -/
inductive Resource where
  | nourriture | linemate | deraumere | sibur | mendiane | phiras | thystame | player
  deriving DecidableEq, Repr

/-- `Resource.getName`. -/
def Resource.getName : Resource → String
  | .nourriture => "nourriture"
  | .linemate => "linemate"
  | .deraumere => "deraumere"
  | .sibur => "sibur"
  | .mendiane => "mendiane"
  | .phiras => "phiras"
  | .thystame => "thystame"
  | .player => "player"

/-- `ElevationRules.Rule`. -/
structure Rule where
  players : Int
  stones : List (Resource × Int)
  deriving DecidableEq, Repr

/-- `ElevationRules.rules`. -/
def elevationRules : List (Int × Rule) :=
  [(1, ⟨1, [(.linemate, 1)]⟩),
    (2, ⟨2, [(.linemate, 1), (.deraumere, 1), (.sibur, 1)]⟩),
    (3, ⟨2, [(.linemate, 2), (.sibur, 1), (.phiras, 2)]⟩),
    (4, ⟨4, [(.linemate, 1), (.deraumere, 1), (.sibur, 2), (.phiras, 1)]⟩),
    (5, ⟨4, [(.linemate, 1), (.deraumere, 2), (.sibur, 1), (.mendiane, 3)]⟩),
    (6, ⟨6, [(.linemate, 1), (.deraumere, 2), (.sibur, 3), (.phiras, 1)]⟩),
    (7, ⟨6, [(.linemate, 2), (.deraumere, 2), (.sibur, 2), (.phiras, 2), (.mendiane, 2), (.thystame, 1)]⟩)]

/-- `ElevationRules.getRule`. -/
def getRule (level : Int) : Option Rule := elevationRules.lookup level

/-- Tile and group satisfy a rule; both programs name a resource by the same text. -/
def Rule.Met (rule : Rule) (items : Inventory) (players : Nat) : Prop :=
  (∀ stone ∈ rule.stones, ∃ type, inventoryTypeOf stone.1.getName = some type ∧ stone.2 ≤ items.get type) ∧
    rule.players ≤ players

/-- What the client takes for enough to leave a level. -/
def ClientAllows (level : Int) (items : Inventory) (players : Nat) : Prop :=
  ∃ rule, getRule level = some rule ∧ rule.Met items players

/-! ### Where the two tables agree -/

/-- No count is negative. -/
def Inventory.Stocked (items : Inventory) : Prop := ∀ r, 0 ≤ items.get r

/-- On a tile with these items and this many players of the level, reading the row of the next level makes no
difference. -/
def ShiftHarmless (level : Int) (items : Inventory) (players : Nat) : Prop :=
  match level with
  | 1 => 1 ≤ items.linemate → items.Stocked ∧ 1 ≤ items.deraumere ∧ 1 ≤ items.sibur ∧ 2 ≤ players
  | 2 => 1 ≤ items.linemate → 1 ≤ items.sibur → 2 ≤ players →
      (items.Stocked ∧ 2 ≤ items.linemate ∧ 2 ≤ items.phiras ↔ 1 ≤ items.deraumere)
  | 3 => 1 ≤ items.linemate → 1 ≤ items.sibur → 1 ≤ items.phiras → 2 ≤ players →
      (items.Stocked ∧ 1 ≤ items.deraumere ∧ 2 ≤ items.sibur ∧ 4 ≤ players ↔ 2 ≤ items.linemate ∧ 2 ≤ items.phiras)
  | 4 => 1 ≤ items.linemate → 1 ≤ items.deraumere → 1 ≤ items.sibur → 4 ≤ players →
      (items.Stocked ∧ 2 ≤ items.deraumere ∧ 3 ≤ items.mendiane ↔ 2 ≤ items.sibur ∧ 1 ≤ items.phiras)
  | 5 => 1 ≤ items.linemate → 2 ≤ items.deraumere → 1 ≤ items.sibur → 4 ≤ players →
      (items.Stocked ∧ 3 ≤ items.sibur ∧ 1 ≤ items.phiras ∧ 6 ≤ players ↔ 3 ≤ items.mendiane)
  | 6 => 1 ≤ items.linemate → 2 ≤ items.deraumere → 2 ≤ items.sibur → 1 ≤ items.phiras → 6 ≤ players →
      (items.Stocked ∧ 2 ≤ items.linemate ∧ 2 ≤ items.mendiane ∧ 2 ≤ items.phiras ∧ 1 ≤ items.thystame ↔
        3 ≤ items.sibur)
  | 7 => ¬ (2 ≤ items.linemate ∧ 2 ≤ items.deraumere ∧ 2 ≤ items.sibur ∧ 2 ≤ items.mendiane ∧ 2 ≤ items.phiras ∧
      1 ≤ items.thystame ∧ 6 ≤ players)
  | _ => True

private theorem Inventory.stocked_iff (items : Inventory) : items.Stocked ↔ 0 ≤ items.nourriture ∧ 0 ≤ items.linemate ∧
    0 ≤ items.deraumere ∧ 0 ≤ items.sibur ∧ 0 ≤ items.mendiane ∧ 0 ≤ items.phiras ∧ 0 ≤ items.thystame := by
  constructor
  · exact fun h => ⟨h .nourriture, h .linemate, h .deraumere, h .sibur, h .mendiane, h .phiras, h .thystame⟩
  · rintro ⟨h₁, h₂, h₃, h₄, h₅, h₆, h₇⟩ r
    cases r <;> assumption

theorem Inventory.lacks_eq_false_iff (items req : Inventory) : items.lacks req = false ↔
    req.nourriture ≤ items.nourriture ∧ req.linemate ≤ items.linemate ∧ req.deraumere ≤ items.deraumere ∧
      req.sibur ≤ items.sibur ∧ req.mendiane ≤ items.mendiane ∧ req.phiras ≤ items.phiras ∧
      req.thystame ≤ items.thystame := by
  simp only [Inventory.lacks, Bool.or_eq_false_iff, decide_eq_false_iff_not, Int.not_lt, and_assoc]

/-- `m_game_check_can_incantation` on a well-formed tile. -/
private theorem gameCheckCanIncantation_iff {pl : Player} {l : List Addr}
    (hl : IsList s.nextOf s.prevOf (s.map (s.mapIndex pl.pos)).players l) (hlive : ∀ q ∈ l, (s.playerHeap q).isSome)
    (hlen : l.length ≤ s.nextAddr) :
    gameCheckCanIncantation s pl true = some .success ↔ pl.level < levelMax ∧
      (s.map (s.mapIndex pl.pos)).items.lacks (levelReqs pl.level).inv = false ∧
      (levelReqs pl.level).playerNumber ≤ (l.countP fun q => s.levelOf q = some pl.level : Nat) := by
  constructor
  · exact fun h => ⟨gameCheckCanIncantation_success h, gameCheckCanIncantation_items h,
      gameCheckCanIncantation_count hl hlive hlen h⟩
  · rintro ⟨hlevel, hitems, hcount⟩
    unfold gameCheckCanIncantation
    dsimp only
    rw [countLevel_eq hl hlive hlen, if_neg (by omega), hitems, Option.map_some,
      if_neg (Int.not_lt.2 hcount), if_neg (by simp)]

/-- The stones that rules name. -/
private theorem stone_types : inventoryTypeOf Resource.linemate.getName = some .linemate ∧
    inventoryTypeOf Resource.deraumere.getName = some .deraumere ∧
    inventoryTypeOf Resource.sibur.getName = some .sibur ∧ inventoryTypeOf Resource.mendiane.getName = some .mendiane ∧
    inventoryTypeOf Resource.phiras.getName = some .phiras ∧
    inventoryTypeOf Resource.thystame.getName = some .thystame := by decide

private theorem clientAllows_iff {level : Int} {rule : Rule} (h : getRule level = some rule) (items : Inventory)
    (players : Nat) : ClientAllows level items players ↔ rule.Met items players := by
  simp only [ClientAllows, h, Option.some.injEq, exists_eq_left']

/-- The rows of both tables, level by level. -/
private theorem agree_iff_shiftHarmless {level : Int} (h1 : 1 ≤ level) (h7 : level ≤ 7) (items : Inventory)
    {players : Nat} (hplayers : 1 ≤ players) :
    ((level < levelMax ∧ items.lacks (levelReqs level).inv = false ∧ (levelReqs level).playerNumber ≤ players) ↔
      ClientAllows level items players) ↔ ShiftHarmless level items players := by
  obtain ⟨hlin, hder, hsib, hmen, hphi, hthy⟩ := stone_types
  rw [Inventory.lacks_eq_false_iff]
  obtain rfl | rfl | rfl | rfl | rfl | rfl | rfl : level = 1 ∨ level = 2 ∨ level = 3 ∨ level = 4 ∨ level = 5 ∨
    level = 6 ∨ level = 7 := by omega
  -- the server's row is the one after the client's; on level 7 the bound comes before the row
  case' inl => rw [clientAllows_iff rfl, show levelReqs 1 = ⟨2, ⟨0, 1, 1, 1, 0, 0, 0⟩⟩ from rfl]
  case' inr.inl => rw [clientAllows_iff rfl, show levelReqs 2 = ⟨2, ⟨0, 2, 0, 1, 0, 2, 0⟩⟩ from rfl]
  case' inr.inr.inl => rw [clientAllows_iff rfl, show levelReqs 3 = ⟨4, ⟨0, 1, 1, 2, 0, 1, 0⟩⟩ from rfl]
  case' inr.inr.inr.inl => rw [clientAllows_iff rfl, show levelReqs 4 = ⟨4, ⟨0, 1, 2, 1, 3, 0, 0⟩⟩ from rfl]
  case' inr.inr.inr.inr.inl => rw [clientAllows_iff rfl, show levelReqs 5 = ⟨6, ⟨0, 1, 2, 3, 0, 1, 0⟩⟩ from rfl]
  case' inr.inr.inr.inr.inr.inl => rw [clientAllows_iff rfl, show levelReqs 6 = ⟨6, ⟨0, 2, 2, 2, 2, 2, 1⟩⟩ from rfl]
  case' inr.inr.inr.inr.inr.inr => rw [clientAllows_iff rfl, show levelMax = 7 from rfl]
  all_goals
    simp only [ShiftHarmless, Inventory.stocked_iff, Rule.Met, List.forall_mem_cons, List.not_mem_nil,
      false_implies, implies_true, and_true, hlin, hder, hsib, hmen, hphi, hthy, Option.some.injEq, exists_eq_left',
      Inventory.get, levelMax]
    omega

/-- On a well-formed tile, server and client agree about an incantation exactly if the shift is harmless. -/
theorem rules_agree_iff {p : Addr} {pl : Player} {l : List Addr} (hpl : s.playerHeap p = some pl)
    (hl : IsList s.nextOf s.prevOf (s.map (s.mapIndex pl.pos)).players l) (hp : p ∈ l)
    (hlive : ∀ q ∈ l, (s.playerHeap q).isSome ∧ q < s.nextAddr) (h1 : 1 ≤ pl.level) (h7 : pl.level ≤ 7) :
    (gameCheckCanIncantation s pl true = some .success ↔
      ClientAllows pl.level (s.map (s.mapIndex pl.pos)).items (l.countP fun q => s.levelOf q = some pl.level)) ↔
    ShiftHarmless pl.level (s.map (s.mapIndex pl.pos)).items (l.countP fun q => s.levelOf q = some pl.level) := by
  have hlen : l.length ≤ s.nextAddr := length_le_of_lt hl.nodup fun q hq => (hlive q hq).2
  have hself : 1 ≤ l.countP fun q => s.levelOf q = some pl.level :=
    List.countP_pos_iff.2 ⟨p, hp, by simp [levelOf_eq hpl]⟩
  rw [gameCheckCanIncantation_iff hl (fun q hq => (hlive q hq).1) hlen]
  exact agree_iff_shiftHarmless h1 h7 _ hself

/-- A player alone, just registered, on a tile with one linemate and nothing else. -/
def lonePlayer : Server :=
  (gameRegisterPlayer shippedConfig
    (gameInit shippedConfig 1 1 ["red"] 1 fun _ r => if r = .linemate then 1 else 0) 0 4 "red" ⟨0, 0, 0⟩).2

private theorem lonePlayer_isList : IsList lonePlayer.nextOf lonePlayer.prevOf (lonePlayer.map 0).players [1] :=
  ⟨⟨by decide, by decide, show lonePlayer.nextOf 1 = none by decide⟩, by decide⟩

/-- The client may rise and the server refuses. -/
theorem lone_player_refused : ∃ pl, lonePlayer.playerHeap 1 = some pl ∧ pl.level = 1 ∧
    IsList lonePlayer.nextOf lonePlayer.prevOf (lonePlayer.map (lonePlayer.mapIndex pl.pos)).players [1] ∧
    ¬ (gameCheckCanIncantation lonePlayer pl true = some .success ↔
      ClientAllows pl.level (lonePlayer.map (lonePlayer.mapIndex pl.pos)).items
        ([1].countP fun q => lonePlayer.levelOf q = some pl.level)) := by
  refine ⟨{ id := 4, teamId := 0, level := 1, pos := ⟨0, 0⟩, dir := .north, dieTime := 1260 }, by decide, rfl,
    lonePlayer_isList, fun hagree => ?_⟩
  have hrefused : gameCheckCanIncantation lonePlayer
      { id := 4, teamId := 0, level := 1, pos := ⟨0, 0⟩, dir := .north, dieTime := 1260 } true = some .error := by
    decide
  have hallowed := hagree.2 ⟨_, rfl, by simp [stone_types.1, Inventory.get]; decide, by decide⟩
  rw [hrefused] at hallowed
  cases hallowed

theorem rules_agree_iff_lone : ∃ pl, lonePlayer.playerHeap 1 = some pl ∧
    ((gameCheckCanIncantation lonePlayer pl true = some .success ↔
      ClientAllows pl.level (lonePlayer.map (lonePlayer.mapIndex pl.pos)).items
        ([1].countP fun q => lonePlayer.levelOf q = some pl.level)) ↔
      ShiftHarmless pl.level (lonePlayer.map (lonePlayer.mapIndex pl.pos)).items
        ([1].countP fun q => lonePlayer.levelOf q = some pl.level)) := by
  refine ⟨{ id := 4, teamId := 0, level := 1, pos := ⟨0, 0⟩, dir := .north, dieTime := 1260 }, by decide, ?_⟩
  exact rules_agree_iff (p := 1) (by decide) lonePlayer_isList (by decide) (by decide) (by decide) (by decide)

end Zappy

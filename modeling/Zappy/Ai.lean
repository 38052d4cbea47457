import Zappy.Mirror
import Zappy.TileMoves
import Zappy.ViewOrder

/-!
# The decisions of the client (`AI.java`)

The AI is asked when a view arrives and when no answer is awaited any more.  It walks to food or to a stone that it
needs, looks around after a random move, and asks for its inventory when it has the stones; it never starts an
incantation, a broadcast or an expulsion.  It counts the levels for itself (`debugLevel`), and throws from level 8 on,
for which there is no rule.
-/

namespace Zappy

/-- `AI`, without the world, which it never reads. -/
structure AI where
  targets : List Resource := []
  curView : List (List String) := []
  debugLevel : Int := 1
  inventaireChecked : Bool := false
  deriving DecidableEq, Repr

variable (ai : AI) (c : JavaClient) (draw : Fin 3)

/-! ### Moves -/

/-- `getRandomMove`, for what `nextInt` returns. -/
def getRandomMove : CommandType :=
  match draw with
  | 0 => .avance
  | 1 => .gauche
  | 2 => .droite

/-- `addRandomMove`, on an empty list. -/
def addRandomMove : List Command := [{ type := getRandomMove draw }, { type := .voir }]

/-- `addMovesToTile`, on an empty list. -/
def addMovesToTile (tileIdx : Int) (target : Resource) : List Command :=
  (AI.getMovesToTile tileIdx).map (fun move => { type := move }) ++ [{ type := .prend, argument := target.getName }]

/-- `checkInventaire`. -/
def checkInventaire : List Command := [{ type := .inventaire }]

/-- `decideNextMoves`. -/
def decideNextMoves : List Command := addRandomMove draw

/-! ### Targets -/

namespace AI

/-- `setTargets`; `none` for the exception when there is no rule. -/
def setTargets : Option AI :=
  (getRule ai.debugLevel).map fun rule =>
    { ai with targets := Resource.values.filter fun r =>
        (rule.stones.lookup r).any fun required => c.getInventoryCount r < required }

/-- `readyToElevate`. -/
def readyToElevate : Bool := ai.targets.isEmpty

/-- `searchForFood`; `none` for an exception. -/
def searchForFood : Option (List Command) :=
  (findItemInView ai.curView c.level.toNat .nourriture).map fun tileIdx =>
    if tileIdx ≠ -1 then addMovesToTile tileIdx .nourriture else addRandomMove draw

/-- The inner loop of `searchForTarget`: the first target on the tile. -/
def targetOnTile (tileIdx : Int) : List Resource → Option (Option Resource)
  | [] => some none
  | target :: targets =>
    (curViewGet ai.curView tileIdx).bind fun contents =>
      if target.getName ∈ contents then some (some target) else targetOnTile tileIdx targets

/-- The outer loop of `searchForTarget`. -/
def searchTiles : List Int → Option (Option (Int × Resource))
  | [] => some none
  | tileIdx :: sortedIndices =>
    (ai.targetOnTile tileIdx ai.targets).bind fun
      | some target => some (some (tileIdx, target))
      | none => searchTiles sortedIndices

/-- `searchForTarget`; `none` for an exception. -/
def searchForTarget : Option (List Command) :=
  (ai.searchTiles (getViewIndicesSortedByDistance c.level.toNat)).map fun
    | some (tileIdx, target) => addMovesToTile tileIdx target
    | none => addRandomMove draw

/-- `if (inventaireChecked && !readyToElevate()) setInventaireChecked(false)`. -/
def uncheck : AI := { ai with inventaireChecked := ai.inventaireChecked && ai.readyToElevate }

/-- `decideNextMovesViewBased` after `setTargets`, when there is food enough. -/
def pursue : AI × Advice :=
  if ¬ ai.readyToElevate then (ai, ai.searchForTarget c draw)
  else if ¬ ai.inventaireChecked then (ai, some checkInventaire)
  else ({ ai with debugLevel := ai.debugLevel + 1 }, some checkInventaire)

/-- `decideNextMovesViewBased`: the AI after it, and what it returns or throws. -/
def decideNextMovesViewBased (viewData : List (List String)) : AI × Advice :=
  let ai := { ai with curView := viewData }
  match ai.setTargets c with
  | none => (ai, none)
  | some ai => if c.life < 1500 then (ai, ai.searchForFood c draw) else ai.uncheck.pursue c draw

end AI

/-! ### The client with its AI -/

/-- A client and its AI, which is there when the world is. -/
structure Agent where
  client : JavaClient
  ai : AI := {}

/-- `get(key).getAsInt()`. -/
def Json.int (msg : Json) (key : String) : Option Int :=
  match msg.lookup key with
  | some (.num n) => some n
  | some (.str s) => s.toInt?
  | _ => none

/-- The `map_size` that a message of the server sets the game state with. -/
def Json.mapSize (msg : Json) : Option (Int × Int) :=
  match msg.textOr "type" "response", msg.int "remaining_clients", msg.lookup "map_size" with
  | some "welcome", some _, some (.numbers size) =>
    (size.lookup "x").bind fun x => (size.lookup "y").map fun y => (x, y)
  | _, _, _ => none

namespace Agent

variable (a : Agent) (msg : Json)

/-- What the AI does when it is asked about a view. -/
def lookAround : AI × Advice :=
  match msg.lookup "vision", a.client.world, a.client.position with
  | some (.vision data), some world, some pos =>
    if (world.updateVisibleTiles pos.x pos.y pos.direction a.client.level data).isSome then
      a.ai.decideNextMovesViewBased a.client draw data
    else (a.ai, none)
  | _, _, _ => (a.ai, none)

/-- The AI after `setInventaireChecked` was called for an inventory. -/
def checked : AI :=
  match msg.lookup "inventaire", a.client.world with
  | some (.numbers ((item, _) :: _)), some _ =>
    if (Resource.fromString item).isSome then { a.ai with inventaireChecked := true } else a.ai
  | _, _ => a.ai

/-- The AI after a message, and what it has answered if it was asked. -/
def decide : AI × Advice :=
  match msg.mapSize, msg.answered with
  | some _, _ => ({}, some (decideNextMoves draw))
  | none, some "voir" => a.lookAround draw msg
  | none, some "inventaire" => (a.checked msg, some (decideNextMoves draw))
  | none, _ => (a.ai, some (decideNextMoves draw))

/-- `CommandManager.handleResponse`. -/
def handleResponse : Agent where
  client := Stateful.finalState (Zappy.handleResponse (a.decide draw msg).2 msg) a.client
  ai := (a.decide draw msg).1

end Agent

/-! ### What the AI asks for -/

/-- The commands that the AI ever sends. -/
def AI.commands : List CommandType := [.avance, .gauche, .droite, .voir, .inventaire, .prend]

/-- A list of commands that the AI may return. -/
structure Sober (cmds : List Command) : Prop where
  types : ∀ cmd ∈ cmds, cmd.type ∈ AI.commands
  some : cmds ≠ []

variable {ai c draw} {cmds : List Command} {tileIdx : Int} {target : Resource}

private theorem addRandomMove_sober (draw : Fin 3) : Sober (addRandomMove draw) := by
  constructor
  case types =>
    fin_cases draw <;> decide
  case some => exact List.cons_ne_nil _ _

private theorem checkInventaire_sober : Sober checkInventaire := by
  constructor
  case types => decide
  case some => exact List.cons_ne_nil _ _

private theorem addMovesToTile_sober (tileIdx : Int) (target : Resource) : Sober (addMovesToTile tileIdx target) := by
  constructor
  case types =>
    intro cmd hcmd
    rcases List.mem_append.1 hcmd with hcmd | hcmd
    · obtain ⟨move, hmove, rfl⟩ := List.mem_map.1 hcmd
      dsimp only
      unfold AI.getMovesToTile movesToTile at hmove
      split at hmove
      · cases hmove
      · -- the moves to a tile are steps and at most one turn
        rcases List.mem_append.1 hmove with hmove | hmove
        · rcases List.mem_append.1 hmove with hmove | hmove
          · rw [(List.mem_replicate.1 hmove).2]
            decide
          · split at hmove
            · rw [List.mem_singleton.1 hmove]
              decide
            · split at hmove
              · rw [List.mem_singleton.1 hmove]
                decide
              · cases hmove
        · rw [(List.mem_replicate.1 hmove).2]
          decide
    · rw [List.mem_singleton.1 hcmd]
      exact (by decide : CommandType.prend ∈ AI.commands)
  case some =>
    unfold addMovesToTile
    simp

private theorem searchForFood_sober (h : ai.searchForFood c draw = some cmds) : Sober cmds := by
  obtain ⟨tileIdx, -, rfl⟩ := Option.map_eq_some_iff.1 h
  split
  · exact addMovesToTile_sober _ _
  · exact addRandomMove_sober _

private theorem searchForTarget_sober (h : ai.searchForTarget c draw = some cmds) : Sober cmds := by
  obtain ⟨found, -, rfl⟩ := Option.map_eq_some_iff.1 h
  cases found with
  | none => exact addRandomMove_sober _
  | some found => exact addMovesToTile_sober _ _

private theorem pursue_sober (h : (ai.pursue c draw).2 = some cmds) : Sober cmds := by
  unfold AI.pursue at h
  split at h
  · exact searchForTarget_sober h
  · split at h
    · cases h
      exact checkInventaire_sober
    · cases h
      exact checkInventaire_sober

private theorem decideNextMovesViewBased_sober {viewData : List (List String)}
    (h : (ai.decideNextMovesViewBased c draw viewData).2 = some cmds) : Sober cmds := by
  unfold AI.decideNextMovesViewBased at h
  dsimp only at h
  split at h
  · cases h
  · split at h
    · exact searchForFood_sober h
    · exact pursue_sober h

/-- Whatever the AI returns, it is a list of its six commands, and not empty. -/
theorem Agent.decide_sober {a : Agent} {msg : Json} (h : (a.decide draw msg).2 = some cmds) : Sober cmds := by
  unfold Agent.decide at h
  split at h
  · cases h
    exact addRandomMove_sober _
  · unfold Agent.lookAround at h
    split at h
    · split at h
      · exact decideNextMovesViewBased_sober h
      · cases h
    · cases h
  · cases h
    exact addRandomMove_sober _
  · cases h
    exact addRandomMove_sober _

/-! ### When the AI returns -/

private theorem targetOnTile_isSome (htile : ∃ contents, curViewGet ai.curView tileIdx = some contents)
    (targets : List Resource) : (ai.targetOnTile tileIdx targets).isSome := by
  obtain ⟨contents, hcontents⟩ := htile
  induction targets with
  | nil => rfl
  | cons target targets ih =>
    rw [AI.targetOnTile, hcontents, Option.bind_some]
    split
    · rfl
    · exact ih

private theorem searchTiles_isSome {order : List Int}
    (h : ∀ i ∈ order, ∃ contents, curViewGet ai.curView i = some contents) : (ai.searchTiles order).isSome := by
  induction order with
  | nil => rfl
  | cons i order ih =>
    obtain ⟨found, hfound⟩ := Option.isSome_iff_exists.1 (targetOnTile_isSome (h i List.mem_cons_self) ai.targets)
    rw [AI.searchTiles, hfound, Option.bind_some]
    cases found with
    | none => exact ih fun j hj => h j (List.mem_cons_of_mem _ hj)
    | some target => rfl

/-- `searchForFood` and `searchForTarget` find their way on a complete view. -/
private theorem search_isSome (hsize : ai.curView.length = (c.level.toNat + 1) ^ 2) :
    (ai.searchForFood c draw).isSome ∧ (ai.searchForTarget c draw).isSome := by
  constructor
  · have hfound : ∃ i, findItemInView ai.curView c.level.toNat .nourriture = some i := by
      obtain ⟨i, hi, -⟩ := findItemInView_first (R := fun _ _ => True) (fun _ => trivial)
        (List.pairwise_of_forall fun _ _ => trivial) hsize
      exact ⟨i, hi⟩
    obtain ⟨i, hi⟩ := hfound
    rw [AI.searchForFood, hi]
    rfl
  · unfold AI.searchForTarget
    rw [Option.isSome_map]
    refine searchTiles_isSome fun i hi => ?_
    obtain ⟨hlow, hhigh⟩ := mem_viewIndices.1 hi
    exact curViewGet_isSome hlow (hsize ▸ hhigh)

/-- On a complete view the AI returns, unless it has no rule for its level. -/
theorem decideNextMovesViewBased_isSome {viewData : List (List String)} (hrule : (getRule ai.debugLevel).isSome)
    (hsize : viewData.length = (c.level.toNat + 1) ^ 2) :
    (ai.decideNextMovesViewBased c draw viewData).2.isSome := by
  obtain ⟨rule, hrule⟩ := Option.isSome_iff_exists.1 hrule
  unfold AI.decideNextMovesViewBased AI.setTargets
  dsimp only
  rw [hrule, Option.map_some]
  dsimp only
  split
  · exact (search_isSome hsize).1
  · unfold AI.pursue
    split
    · exact (search_isSome hsize).2
    · split <;> rfl

/-- The level of the AI never goes down, except when it is replaced. -/
theorem debugLevel_mono (ai : AI) (c : JavaClient) (draw : Fin 3) (viewData : List (List String)) :
    ai.debugLevel ≤ (ai.decideNextMovesViewBased c draw viewData).1.debugLevel := by
  unfold AI.decideNextMovesViewBased AI.setTargets
  cases hrule : getRule ai.debugLevel with
  | none =>
    dsimp only
    rw [hrule, Option.map_none]
  | some rule =>
    dsimp only
    rw [hrule, Option.map_some]
    dsimp only
    split
    · exact le_rfl
    · unfold AI.pursue
      split
      · exact le_rfl
      · split
        · exact le_rfl
        · exact Int.le.intro 1 rfl

/-- The levels for which there is a rule. -/
theorem getRule_isSome {level : Int} : (getRule level).isSome ↔ 1 ≤ level ∧ level ≤ 7 := by
  constructor
  · intro h
    obtain ⟨rule, hrule⟩ := Option.isSome_iff_exists.1 h
    have hmem : ∀ entry ∈ elevationRules, 1 ≤ entry.1 ∧ entry.1 ≤ 7 := by decide
    unfold getRule at hrule
    rw [List.lookup_eq_some_iff] at hrule
    obtain ⟨before, after, heq, -⟩ := hrule
    exact hmem (level, rule) (by rw [heq]; simp)
  · rintro ⟨hlow, hhigh⟩
    interval_cases level <;> rfl

end Zappy

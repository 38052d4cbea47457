import Zappy.Sessions
import Zappy.Journeys

/-!
# How long a player lives

A life unit is due when the time of death comes, and `game_player_die` takes it from the food that the player carries.
So the time of death is the start of the player with a life unit for each one it started with or has eaten, and what
it has eaten and what it carries is what it has taken and not put down.  `prend` and `pose` in between change what is
left to eat, never the time of death.
-/

namespace Zappy

open LinkedList Relation Run Slots

variable {cfg : Config} {m m' : Machine} {act : MachineAction} {s s' : Server} {a : GameAction} {chance : Chance}
  {p : Addr} {pl : Player}

/-! ### What a player has eaten -/

/-- The units of food that a player has eaten. -/
def Server.eaten (s : Server) (p : Addr) : Nat := s.ledger.count (.ate p)

/-- `game_kill_player` has not hit the player. -/
def Server.Unhit (s : Server) (p : Addr) : Prop := ∀ units, .zeroed p units ∉ s.ledger

/-- The entry is about the food of `p`. -/
def Entry.feeds (p : Addr) : Entry → Bool
  | .ate q => decide (q = p)
  | .zeroed q _ => decide (q = p)
  | _ => false

/-- What the ledger holds about the food of a player. -/
def Server.diet (s : Server) (p : Addr) : List Entry := s.ledger.filter (Entry.feeds p)

private theorem eaten_eq (s : Server) (p : Addr) : s.eaten p = (s.diet p).count (.ate p) := by
  rw [Server.diet, List.count_filter (by simp [Entry.feeds])]
  rfl

private theorem unhit_iff : s.Unhit p ↔ ∀ units, .zeroed p units ∉ s.diet p := by
  simp [Server.Unhit, Server.diet, Entry.feeds]

private theorem record_diet (s : Server) (e : Entry) (p : Addr) :
    (s.record e).diet p = s.diet p ++ if e.feeds p then [e] else [] := by
  rw [Server.diet, Server.record, List.filter_append, List.filter_singleton, cond_eq_ite]
  rfl

/-- An entry about other things or another player. -/
private theorem record_diet_of (s : Server) {e : Entry} (he : e.feeds p = false) : (s.record e).diet p = s.diet p := by
  rw [record_diet, he, if_neg Bool.false_ne_true, List.append_nil]

private theorem gameSpawnResources_diet (counts : Nat → InventoryType → Nat) (ev : Event) :
    (gameSpawnResources cfg counts s ev).diet p = s.diet p := by
  have hlap : ∀ (l : List Nat) (t : Server), (l.foldl (spawnTurn counts) t).diet p = t.diet p := by
    intro l
    induction l with
    | nil => exact fun _ => rfl
    | cons i l ih =>
      intro t
      refine (ih _).trans ?_
      unfold spawnTurn
      dsimp only
      split
      · rfl
      · exact record_diet_of _ rfl
  rw [gameSpawnResources_rest]
  exact hlap _ s

/-- Callbacks book nothing about food. -/
private theorem runCallback_diet {ev : Event} (h : runCallback cfg chance ev s = some s') : s'.diet p = s.diet p := by
  unfold runCallback at h
  split at h
  · cases h; rfl
  · cases h; exact gameSpawnResources_diet _ _
  · rename_i type _
    simp only [Option.bind_eq_some_iff] at h
    obtain ⟨q, -, pl, -, h⟩ := h
    by_cases htype : type = .incantation
    · subst htype
      obtain rfl | ⟨-, rfl⟩ := commandIncantation_cases h
      · rfl
      · rw [queueCompletion_rest]
        exact record_diet_of _ rfl
    · rw [(runCommand_control htype h).rest]
      rfl
  · simp only [Option.bind_eq_some_iff] at h
    obtain ⟨q, -, pl, -, h⟩ := h
    obtain ⟨copy, -, rfl | ⟨-, -, s₁, h₁, rfl⟩⟩ := commandRealIncantation_cases h
    · rfl
    · refine (record_diet_of s₁ (e := .completed q pl.level) rfl).trans ?_
      rw [levelUpLoop_control h₁]
      rfl

private theorem gamePlayerDie_diet {c : Addr} {cl : Client} (hfood : pl.inv.nourriture ≤ 0) :
    (gamePlayerDie cfg s c cl pl).2.diet p = s.diet p := by
  have hburied : ∀ t : Server, (buried t cl pl).diet p = t.diet p := by
    intro t
    refine (record_diet_of (freePlayer cl.player (gameRemovePlayerFromTile t cl.player)) rfl).trans ?_
    rw [freePlayer, (removePlayer_same t cl.player).rest]
    rfl
  rcases gamePlayerDie_cases cfg s c cl hfood with ⟨-, h⟩ | ⟨s₁, h₁, ⟨-, h⟩ | ⟨s₂, h₂, hend⟩⟩
  · rw [h]
  · obtain ⟨i, -, rfl⟩ := removeClientFromServer_some h₁
    rw [h]
    rfl
  · have hleft : s₂.diet p = s.diet p := by
      obtain ⟨i, -, rfl⟩ := removeClientFromServer_some h₁
      obtain ⟨t, -, -, rfl⟩ := teamRemovePlayerFromTeam_some h₂
      rfl
    rcases hend with ⟨-, h⟩ | ⟨-, h⟩
    · rw [h]
      exact (hburied s₂).trans hleft
    · rw [h, releaseArgs_eq]
      exact (hburied s₂).trans hleft

/-! ### What a player carries -/

/-- The time of death of a player and the food it carries. -/
def Server.foodOf (s : Server) (p : Addr) : Option (Nat × Int) :=
  (s.playerHeap p).map fun pl => (pl.dieTime, pl.inv.nourriture)

private theorem foodOf_eq (hpl : s.playerHeap p = some pl) : s.foodOf p = some (pl.dieTime, pl.inv.nourriture) := by
  rw [Server.foodOf, hpl, Option.map_some]

private theorem foodOf_of_vitals (h : s'.vitalsOf p = s.vitalsOf p) : s'.foodOf p = s.foodOf p := by
  have hfood := congrArg (Option.map fun v : Nat × Inventory => (v.1, v.2.nourriture)) h
  rw [Server.vitalsOf, Server.vitalsOf, Option.map_map, Option.map_map] at hfood
  exact hfood

/-- What an event adds to the food a player has taken and not put down, when it is executed. -/
def Event.foodMoved (s : Server) (p : Addr) (ev : Event) : Int :=
  if ev.data = some p ∧ (ev.arg.bind fun arg => inventoryTypeOf arg.text) = some .nourriture then
    match s.playerHeap p with
    | none => 0
    | some pl =>
      match ev.callback with
      | some (.command .prend) => if 0 < (s.map (s.mapIndex pl.pos)).items.nourriture then 1 else 0
      | some (.command .pose) => if 0 < pl.inv.nourriture then -1 else 0
      | _ => 0
  else 0

/-- The same of a step of the game. -/
def foodMoved (p : Addr) (s : Server) (a : GameAction) : Int :=
  match executed s a with
  | some ev => ev.foodMoved s p
  | none => 0

/-- Food is put down only when there is some. -/
private theorem foodMoved_nonneg (hpl : s.playerHeap p = some pl) (hfood : 0 ≤ pl.inv.nourriture) (ev : Event) :
    0 ≤ pl.inv.nourriture + ev.foodMoved s p := by
  unfold Event.foodMoved
  split
  · rw [hpl]
    dsimp only
    split
    · split <;> omega
    · split <;> omega
    · omega
  · omega

private theorem add_nourriture (inv : Inventory) (r : InventoryType) (k : Int) :
    (inv.add r k).nourriture = inv.nourriture + if r = .nourriture then k else 0 := by
  have hget := Inventory.get_add inv r .nourriture k
  change (inv.add r k).nourriture = if _ then inv.nourriture + k else inv.nourriture at hget
  rw [hget]
  by_cases hr : r = .nourriture
  · rw [if_pos hr.symm, if_pos hr]
  · rw [if_neg (Ne.symm hr), if_neg hr, add_zero]

/-- `prend` and `pose` move a unit of food when they are about food and it is there. -/
private theorem commandTransfer_foodOf {cmd : String} {add : Int} (hadd : add = -1 ∨ add = 1)
    (hpl : s.playerHeap p = some pl) (arg : Option Arg) :
    (commandTransfer cmd add s p pl arg).foodOf p = some (pl.dieTime, pl.inv.nourriture +
      if (arg.bind fun arg => inventoryTypeOf arg.text) = some .nourriture ∧
        (helperItemsToTiles s (s.mapIndex pl.pos) p pl add .nourriture).isSome then -add else 0) := by
  have hkeep : ∀ {n : Int}, n = 0 → s.foodOf p = some (pl.dieTime, pl.inv.nourriture + n) := by
    rintro n rfl
    rw [foodOf_eq hpl, add_zero]
  unfold commandTransfer
  split
  · exact hkeep (if_neg fun hboth => by cases hboth.1)
  rename_i arg
  split
  · rename_i hnone
    exact hkeep (if_neg fun hboth => by rw [Option.bind_some, hnone] at hboth; cases hboth.1)
  rename_i type htype
  rw [Option.bind_some, htype]
  split
  · rename_i hnone
    refine hkeep (if_neg fun hboth => ?_)
    obtain ⟨hfood, hsome⟩ := hboth
    rw [Option.some.inj hfood] at hnone
    rw [hnone] at hsome
    cases hsome
  · rename_i s₁ hmove
    have hmoved : s₁.foodOf p = some (pl.dieTime, (pl.inv.add type (-add)).nourriture) := by
      rcases hadd with rfl | rfl
      · rw [helperItemsToTiles, if_pos rfl] at hmove
        split at hmove
        · cases hmove
        · cases hmove
          simp [Server.foodOf, Server.modPlayer, Server.modTile, hpl]
      · rw [helperItemsToTiles, if_neg (by decide), if_pos rfl] at hmove
        split at hmove
        · cases hmove
        · cases hmove
          simp [Server.foodOf, Server.modPlayer, Server.modTile, hpl]
    change s₁.foodOf p = _
    rw [hmoved, add_nourriture]
    by_cases hfood : type = .nourriture
    · subst hfood
      rw [if_pos rfl, if_pos ⟨rfl, by rw [hmove]; rfl⟩]
    · rw [if_neg hfood, if_neg fun hboth => hfood (Option.some.inj hboth.1)]

private theorem commandPrend_foodOf (hpl : s.playerHeap p = some pl) {ev : Event} (hdata : ev.data = some p)
    (hcall : ev.callback = some (.command .prend)) :
    (commandPrend s p pl ev.arg).foodOf p = some (pl.dieTime, pl.inv.nourriture + ev.foodMoved s p) := by
  refine (commandTransfer_foodOf (Or.inl rfl) hpl ev.arg).trans ?_
  have hthere : (helperItemsToTiles s (s.mapIndex pl.pos) p pl (-1) .nourriture).isSome ↔
      0 < (s.map (s.mapIndex pl.pos)).items.nourriture := by
    rw [helperItemsToTiles, if_pos rfl]
    change (if (s.map (s.mapIndex pl.pos)).items.nourriture ≤ 0 then none else some _).isSome ↔ _
    split <;> simp <;> omega
  simp only [Event.foodMoved, hdata, hcall, hpl, hthere, true_and, ite_and, neg_neg]

private theorem commandPose_foodOf (hpl : s.playerHeap p = some pl) {ev : Event} (hdata : ev.data = some p)
    (hcall : ev.callback = some (.command .pose)) :
    (commandPose s p pl ev.arg).foodOf p = some (pl.dieTime, pl.inv.nourriture + ev.foodMoved s p) := by
  refine (commandTransfer_foodOf (Or.inr rfl) hpl ev.arg).trans ?_
  have hthere : (helperItemsToTiles s (s.mapIndex pl.pos) p pl 1 .nourriture).isSome ↔ 0 < pl.inv.nourriture := by
    rw [helperItemsToTiles, if_neg (by decide), if_pos rfl]
    change (if pl.inv.nourriture ≤ 0 then none else some _).isSome ↔ _
    split <;> simp <;> omega
  simp only [Event.foodMoved, hdata, hcall, hpl, hthere, true_and, ite_and]

private theorem foodMoved_of_not {ev : Event} (h : ¬ ev.moves p) : ev.foodMoved s p = 0 := by
  unfold Event.foodMoved
  split
  · rename_i hboth
    split
    · rfl
    · split
      · rename_i hcall
        exact absurd ⟨hboth.1, Or.inl hcall⟩ h
      · rename_i hcall
        exact absurd ⟨hboth.1, Or.inr hcall⟩ h
      · rfl
  · rfl

/-- A callback leaves the time of death alone, and moves the food it says. -/
private theorem runCallback_foodOf {ev : Event} (h : runCallback cfg chance ev s = some s') :
    s'.foodOf p = (s.foodOf p).map fun v => (v.1, v.2 + ev.foodMoved s p) := by
  by_cases hmoves : ev.moves p
  · obtain ⟨hdata, hcall | hcall⟩ := hmoves
    · simp only [runCallback, hcall, hdata, Option.bind_some, Option.bind_eq_some_iff] at h
      obtain ⟨pl, hpl, h⟩ := h
      cases h
      rw [foodOf_eq hpl, commandPrend_foodOf hpl hdata hcall, Option.map_some]
    · simp only [runCallback, hcall, hdata, Option.bind_some, Option.bind_eq_some_iff] at h
      obtain ⟨pl, hpl, h⟩ := h
      cases h
      rw [foodOf_eq hpl, commandPose_foodOf hpl hdata hcall, Option.map_some]
  · rw [foodMoved_of_not hmoves, foodOf_of_vitals (runCallback_vitals hmoves h)]
    simp only [add_zero, Prod.mk.eta, Option.map_id']

/-! ### When a player started -/

/-- The start of a player. -/
def Server.startOf (s : Server) (p : Addr) : Option Nat := (s.playerHeap p).map Player.startTime

private theorem modPlayer_startOf (q : Addr) {f : Player → Player} (hf : ∀ r, (f r).startTime = r.startTime) :
    (s.modPlayer q f).startOf p = s.startOf p := by
  simp only [Server.startOf, modPlayer_heap]
  split
  · rw [Option.map_map]
    congr 1
    funext r
    exact hf r
  · rfl

private theorem startOf_of_core (h : (s'.playerHeap p).map Player.core = (s.playerHeap p).map Player.core) :
    s'.startOf p = s.startOf p := by
  have hstart := congrArg (Option.map Player.startTime) h
  rw [Option.map_map, Option.map_map] at hstart
  exact hstart

/-- Nobody but a new player gets a start. -/
private theorem Effect.startOf (he : Effect cfg a s s') (hp : p ≠ s.nextAddr + 1) :
    s'.startOf p = s.startOf p ∨ s'.startOf p = none := by
  cases he with
  | enter =>
    refine Or.inl (startOf_of_core ?_)
    rw [enterGame_eq]
    refine ((addPlayer_same _ _ _).core p).trans ?_
    simp only [allocPlayer, Function.update_of_ne hp]
  | kill | eat | turn | levelUp => exact Or.inl (modPlayer_startOf _ fun _ => rfl)
  | take | put => exact Or.inl (modPlayer_startOf (s := s.modTile _ _) _ fun _ => rfl)
  | die hi hcl hpl hfood =>
    rcases gamePlayerDie_core hfood p with hnone | hcore
    · exact Or.inr (by rw [Server.startOf, hnone, Option.map_none])
    · exact Or.inl (startOf_of_core hcore)
  | move => exact Or.inl (startOf_of_core ((movePlayer_same _ _ _).core p))
  | _ => exact Or.inl rfl

/-- A player that is there after a step and is not new was there before, with the same start. -/
private theorem gameStep_startOf (hwf : BuffersWF s) (h : gameStep cfg s a = some s') (hp : p < s.nextAddr) {t : Nat}
    (ht : s'.startOf p = some t) : s.startOf p = some t := by
  have heff := gameStep_effects hwf h
  clear h
  refine (?_ : p < s'.nextAddr ∧ ∀ t, s'.startOf p = some t → s.startOf p = some t).2 t ht
  clear ht
  induction heff with
  | refl => exact ⟨hp, fun _ ht => ht⟩
  | tail _ he ih =>
    refine ⟨Nat.lt_of_lt_of_le ih.1 he.nextAddr_le, fun t ht => ?_⟩
    rcases he.startOf (Nat.ne_of_lt (Nat.lt_succ_of_lt ih.1)) with hsame | hnone
    · exact ih.2 t (hsame ▸ ht)
    · rw [hnone] at ht
      cases ht

/-! ### One step -/

/-- The time of death of a player that started at `start` and has eaten so many units. -/
def Config.deadline (cfg : Config) (start : Nat) (units : Int) : Int :=
  start + cfg.lifeUnit * (cfg.startLifeUnits + units)

private theorem deadline_zero (cfg : Config) (start : Nat) : cfg.deadline start 0 = start + cfg.timeToDie := by
  rw [Config.deadline, add_zero]
  rfl

private theorem deadline_succ (cfg : Config) (start : Nat) (units : Int) :
    cfg.deadline start (units + 1) = cfg.deadline start units + cfg.lifeUnit := by
  simp only [Config.deadline, mul_add, mul_one, add_assoc]

private theorem u64_add (x y : Int) : u64 (u64 x + y) = u64 (x + y) := by
  unfold u64
  omega

/-- The food of `p` is accounted for: it has taken `F` units more than it has put down, has eaten or carries them all,
and each one eaten has bought a life unit. -/
structure Fed (cfg : Config) (p : Addr) (F : Int) (s : Server) : Prop where
  unborn : s.nextAddr ≤ p → F = 0 ∧ s.eaten p = 0
  account : ∀ die food start, s.foodOf p = some (die, food) → s.startOf p = some start → s.Unhit p →
    die = u64 (cfg.deadline start (s.eaten p)) ∧ s.eaten p + food = F ∧ 0 ≤ food

/-- What a step does about the food of `p`, when `p` takes `moved` units more in it than it puts down. -/
inductive Meal (cfg : Config) (p : Addr) (s s' : Server) (moved : Int) : Prop
  | lives (hdiet : s'.diet p = s.diet p) (hfood : s'.foodOf p = (s.foodOf p).map fun v => (v.1, v.2 + moved))
      (hnone : s.playerHeap p = none → moved = 0)
      (hleft : ∀ pl, s.playerHeap p = some pl → 0 ≤ pl.inv.nourriture → 0 ≤ pl.inv.nourriture + moved) :
      Meal cfg p s s' moved
  | eats {pl : Player} (hpl : s.playerHeap p = some pl) (hfood : 0 < pl.inv.nourriture)
      (hdiet : s'.diet p = s.diet p ++ [.ate p])
      (hafter : s'.foodOf p = some (u64 (pl.dieTime + cfg.lifeUnit), pl.inv.nourriture - 1)) (hmoved : moved = 0) :
      Meal cfg p s s' moved
  | dies {pl : Player} (hpl : s.playerHeap p = some pl) (hdue : pl.dieTime ≤ s.now) (hfood : pl.inv.nourriture ≤ 0)
      (hdiet : s'.diet p = s.diet p) (hgone : s'.playerHeap p = none) (hmoved : moved = 0) : Meal cfg p s s' moved
  | born (hp : s.nextAddr ≤ p) (hdiet : s'.diet p = s.diet p) (hmoved : moved = 0)
      (hafter : s'.foodOf p = some (u64 (s.now + cfg.timeToDie), 0)) (hstart : s'.startOf p = some s.now)
      (haddr : p < s'.nextAddr) : Meal cfg p s s' moved
  | hit (hpl : p < s.nextAddr) (hhit : ¬ s'.Unhit p) (halive : (s'.playerHeap p).isSome) : Meal cfg p s s' moved

private theorem diet_congr (h : s'.diet p = s.diet p) : s'.eaten p = s.eaten p ∧ (s'.Unhit p → s.Unhit p) := by
  rw [eaten_eq, eaten_eq, unhit_iff, unhit_iff, h]
  exact ⟨rfl, fun hunhit => hunhit⟩

private theorem foodOf_some {v : Nat × Int} (h : s.foodOf p = some v) :
    ∃ pl, s.playerHeap p = some pl ∧ v = (pl.dieTime, pl.inv.nourriture) := by
  obtain ⟨pl, hpl, rfl⟩ := Option.map_eq_some_iff.1 h
  exact ⟨pl, hpl, rfl⟩

private theorem Registered.player_lt (h : Registered s) (hpl : s.playerHeap p = some pl) : p < s.nextAddr := by
  by_contra hp
  have hnone := h.freshPlayer p (Nat.le_of_not_lt hp)
  rw [Server.playerKey, hpl] at hnone
  cases hnone

/-- The account after a step. -/
private theorem Meal.fed {moved F : Int} (hm : Meal cfg p s s' moved) (hreg : Registered s)
    (haddr : s.nextAddr ≤ s'.nextAddr) (hstart : p < s.nextAddr → ∀ t, s'.startOf p = some t → s.startOf p = some t)
    (h : Fed cfg p F s) :
    Fed cfg p (F + moved) s' := by
  cases hm with
  | lives hdiet hfood hnone hleft =>
    obtain ⟨heaten, hunhit⟩ := diet_congr hdiet
    constructor
    case unborn =>
      intro hp
      obtain ⟨hF, hzero⟩ := h.unborn (haddr.trans hp)
      have hfresh : s.playerHeap p = none := Option.map_eq_none_iff.1 (hreg.freshPlayer p (haddr.trans hp))
      exact ⟨by rw [hF, hnone hfresh, add_zero], heaten.trans hzero⟩
    case account =>
      intro die food start hv ht hno
      rw [hfood, Option.map_eq_some_iff] at hv
      obtain ⟨v, hv, hmoved⟩ := hv
      obtain ⟨pl, hpl, rfl⟩ := foodOf_some hv
      obtain ⟨rfl, rfl⟩ := Prod.mk.inj hmoved
      obtain ⟨hdie, hsum, hpos⟩ := h.account _ _ _ hv (hstart (hreg.player_lt hpl) _ ht) (hunhit hno)
      rw [heaten]
      exact ⟨hdie, by rw [← hsum, add_assoc], hleft pl hpl hpos⟩
  | @eats pl hpl hfood hdiet hafter hmoved =>
    have hlt := hreg.player_lt hpl
    have heaten : s'.eaten p = s.eaten p + 1 := by
      rw [eaten_eq, eaten_eq, hdiet, List.count_append, List.count_singleton_self]
    constructor
    case unborn =>
      intro hp
      exact absurd (haddr.trans hp) (Nat.not_le_of_lt hlt)
    case account =>
      intro die food start hv ht hno
      rw [hafter, Option.some.injEq, Prod.mk.injEq] at hv
      obtain ⟨rfl, rfl⟩ := hv
      have hold : s.Unhit p := by
        rw [unhit_iff, hdiet] at hno
        exact unhit_iff.2 fun units hmem => hno units (List.mem_append_left _ hmem)
      obtain ⟨hdie, hsum, -⟩ := h.account _ _ _ (foodOf_eq hpl) (hstart hlt _ ht) hold
      refine ⟨?_, by rw [heaten]; omega, by omega⟩
      rw [hdie, u64_add, heaten, Nat.cast_succ, deadline_succ]
  | dies hpl hdue hfood hdiet hgone hmoved =>
    obtain ⟨heaten, -⟩ := diet_congr hdiet
    constructor
    case unborn =>
      intro hp
      obtain ⟨hF, hzero⟩ := h.unborn (haddr.trans hp)
      exact ⟨by rw [hF, hmoved, add_zero], heaten.trans hzero⟩
    case account =>
      intro die food start hv
      obtain ⟨pl, hpl, -⟩ := foodOf_some hv
      rw [hgone] at hpl
      cases hpl
  | born hp hdiet hmoved hafter hbegin hlt =>
    obtain ⟨heaten, -⟩ := diet_congr hdiet
    obtain ⟨hF, hzero⟩ := h.unborn hp
    constructor
    case unborn =>
      intro hp'
      exact absurd hp' (Nat.not_le_of_lt hlt)
    case account =>
      intro die food start hv ht hno
      rw [hafter, Option.some.injEq, Prod.mk.injEq] at hv
      rw [hbegin, Option.some.injEq] at ht
      obtain ⟨rfl, rfl⟩ := hv
      subst ht
      rw [heaten, hzero, Nat.cast_zero, deadline_zero, hF, hmoved]
      exact ⟨rfl, rfl, le_rfl⟩
  | hit hlt hhit halive =>
    constructor
    case unborn =>
      intro hp
      exact absurd (haddr.trans hp) (Nat.not_le_of_lt hlt)
    case account => exact fun _ _ _ _ _ hno => absurd hno hhit

private theorem Meal.stays (hdiet : s'.diet p = s.diet p) (hfood : s'.foodOf p = s.foodOf p) : Meal cfg p s s' 0 := by
  refine .lives hdiet ?_ (fun _ => rfl) fun pl _ hpos => by rwa [add_zero]
  rw [hfood]
  simp only [add_zero, Prod.mk.eta, Option.map_id']

/-- Outside the turns nobody takes, puts down or eats. -/
private theorem Effect.meal (he : Effect cfg a s s') (ha : ∀ chance i, a ≠ .playSlot chance i) (hreg : Registered s) :
    Meal cfg p s s' 0 := by
  cases he with
  | quiet | takeRemovals | serverBuffer | schedule => exact .stays rfl rfl
  | spawn => exact .stays (record_diet_of _ rfl) rfl
  | @enter _ conn fd teamName draw teamId t hname ht hfull =>
    have hledger : (enterGame cfg s conn fd teamId draw).diet p = s.diet p := by
      rw [enterGame_eq, onTile, (addPlayer_same _ _ _).rest]
      rfl
    by_cases hp : p = s.nextAddr + 1
    · have hcore : ((enterGame cfg s conn fd teamId draw).playerHeap p).map Player.core =
          some (newPlayer cfg s fd teamId draw).core := by
        rw [enterGame_eq]
        refine ((addPlayer_same _ _ _).core p).trans ?_
        simp only [allocPlayer, hp, Function.update_self, Option.map_some]
      obtain ⟨r, hr, hcore⟩ := Option.map_eq_some_iff.1 hcore
      obtain ⟨-, -, -, -, hinv, hdie, hstart⟩ := Player.core_eq hcore
      refine .born (by rw [hp]; exact Nat.le_succ _) hledger rfl ?_ ?_ ?_
      · rw [foodOf_eq hr, hinv, hdie]
        rfl
      · rw [Server.startOf, hr, Option.map_some, hstart]
        rfl
      · rw [enterGame_eq, onTile_nextAddr, hp]
        exact Nat.lt_succ_self _
    · refine .stays hledger ?_
      have hcore : ((enterGame cfg s conn fd teamId draw).playerHeap p).map Player.core =
          (s.playerHeap p).map Player.core := by
        rw [enterGame_eq]
        refine ((addPlayer_same _ _ _).core p).trans ?_
        simp only [allocPlayer, Function.update_of_ne hp]
      have hfood := congrArg (Option.map fun r : Player => (r.dieTime, r.inv.nourriture)) hcore
      rw [Option.map_map, Option.map_map] at hfood
      exact hfood
  | @kill _ fd c cl pl hc hcl hpl =>
    by_cases hp : p = cl.player
    · subst hp
      refine .hit (hreg.player_lt hpl) (fun hno => hno pl.inv.nourriture ?_) ?_
      · exact List.mem_append_right _ (List.mem_singleton_self _)
      · simp [Server.record, Server.modPlayer, hpl]
    · refine .stays (record_diet_of _ ?_) ?_
      · exact decide_eq_false (Ne.symm hp)
      · exact foodOf_of_vitals ((SameControl.modPlayer s cl.player (f := fun r =>
          { r with dieTime := 0, inv := { r.inv with nourriture := 0 } }) fun _ => rfl).vitals p hp)
  | _ => exact absurd rfl (ha _ _)

/-- The turn of a slot. -/
private theorem gamePlaySlot_meal {i : Nat} (h : gamePlaySlot cfg chance s i = some s') :
    Meal cfg p s s' (foodMoved p s (.playSlot chance i)) := by
  rcases gamePlaySlot_executed h with ⟨hnone, -⟩ | ⟨ev, c, b, s₂, hev, hcall, hheap, hledger, -⟩
  · rw [foodMoved, hnone]
    cases gamePlaySlot_cases h with
    | empty => exact .stays rfl rfl
    | @eats c cl pl hat hdead hfood =>
      by_cases hp : p = cl.player
      · subst hp
        refine .eats hat.player hfood ?_ ?_ rfl
        · have hfeeds : (Entry.ate cl.player).feeds cl.player = true := decide_eq_true rfl
          refine (record_diet _ _ _).trans ?_
          rw [if_pos hfeeds]
          rfl
        · simp [eat, Server.foodOf, Server.record, Server.modPlayer, hat.player]
      · refine .stays (record_diet_of _ (decide_eq_false (Ne.symm hp))) ?_
        exact foodOf_of_vitals ((SameControl.modPlayer s cl.player (f := fun r =>
          { r with
            inv := { r.inv with nourriture := r.inv.nourriture - 1 }
            dieTime := u64 (r.dieTime + cfg.lifeUnit) }) fun _ => rfl).vitals p hp)
    | @dies c cl pl hat hdead hfood =>
      by_cases hp : p = cl.player
      · subst hp
        cases hgone : (gamePlayerDie cfg s c cl pl).2.playerHeap cl.player with
        | none =>
          have hdue : pl.dieTime ≤ s.now := by simpa [playerIsAlive] using hdead
          exact .dies hat.player hdue hfood (gamePlayerDie_diet hfood) hgone rfl
        | some r =>
          exact .stays (gamePlayerDie_diet hfood) (foodOf_of_vitals (gamePlayerDie_vitals hfood (by rw [hgone]; rfl)))
      · exact .stays (gamePlayerDie_diet hfood)
          (foodOf_of_vitals ((gamePlayerDie_deceased cfg s c cl hfood).vitals p hp))
    | waits => exact .stays rfl rfl
    | plays hat halive hdue => rw [hat.executed_eq, if_pos ⟨halive, hdue⟩] at hnone; cases hnone
  · rw [foodMoved, hev]
    have hdiet : s'.diet p = s₂.diet p := by rw [Server.diet, hledger, Server.diet]
    have hfood : s'.foodOf p = s₂.foodOf p := by rw [Server.foodOf, hheap, Server.foodOf]
    have hbooked := runCallback_diet (p := p) hcall
    have hmoved := runCallback_foodOf (p := p) hcall
    refine .lives (hdiet.trans hbooked) (hfood.trans hmoved) (fun hnone => ?_)
      fun pl hpl hpos => foodMoved_nonneg hpl hpos ev
    dsimp only
    rw [Event.foodMoved, hnone]
    split <;> rfl

private theorem fed_init (cfg : Config) (width height : Nat) (teams : List String) (nbClients : Nat)
    (counts : Nat → InventoryType → Nat) : Fed cfg p 0 (gameInit cfg width height teams nbClients counts) :=
  ⟨fun _ => ⟨rfl, rfl⟩, fun _ _ _ hv => by cases hv⟩

private theorem gameStep_fed (hwf : BuffersWF s) (hreg : Registered s) (hstep : gameStep cfg s a = some s') {F : Int}
    (h : Fed cfg p F s) : Fed cfg p (F + foodMoved p s a) s' := by
  have hother : (∀ chance i, a ≠ .playSlot chance i) → Fed cfg p F s' := by
    intro ha
    have heff := gameStep_effects hwf hstep
    clear hstep
    refine (?_ : Registered s' ∧ Fed cfg p F s').2
    induction heff with
    | refl => exact ⟨hreg, h⟩
    | @tail s₁ s₂ _ he ih =>
      refine ⟨he.registered ih.1, ?_⟩
      rw [← add_zero F]
      refine (he.meal ha ih.1).fed ih.1 he.nextAddr_le (fun hp t ht => ?_) ih.2
      rcases he.startOf (Nat.ne_of_lt (Nat.lt_succ_of_lt hp)) with hsame | hnone
      · rw [← hsame, ht]
      · rw [hnone] at ht
        cases ht
  cases a with
  | playSlot chance i =>
    refine (gamePlaySlot_meal hstep).fed hreg ?_ (fun hp t ht => gameStep_startOf hwf hstep hp ht) h
    exact (gameStep_invariant (I := fun t => s.nextAddr ≤ t.nextAddr) (fun _ _ _ he _ hle =>
      hle.trans he.nextAddr_le) hwf le_rfl hstep).2
  | _ =>
    have hfed := hother (by simp)
    rw [← add_zero F] at hfed
    exact hfed

/-- A player that is gone after a step was due and had no food. -/
private theorem Meal.gone {moved : Int} (hm : Meal cfg p s s' moved) (hpl : s.playerHeap p = some pl)
    (hgone : s'.playerHeap p = none) : pl.dieTime ≤ s.now ∧ pl.inv.nourriture ≤ 0 := by
  have hnone : s'.foodOf p = none := by rw [Server.foodOf, hgone, Option.map_none]
  cases hm with
  | lives hdiet hfood =>
    rw [hnone, foodOf_eq hpl] at hfood
    cases hfood
  | eats hold hfood hdiet hafter =>
    rw [hnone] at hafter
    cases hafter
  | dies hold hdue hfood =>
    obtain rfl := Option.some.inj (hpl.symm.trans hold)
    exact ⟨hdue, hfood⟩
  | born hp hdiet hmoved hafter =>
    rw [hnone] at hafter
    cases hafter
  | hit hlt hhit halive =>
    rw [hgone] at halive
    cases halive

/-- Outside the turns nobody dies. -/
private theorem Effect.player_stays (he : Effect cfg a s s') (ha : ∀ chance i, a ≠ .playSlot chance i)
    (hreg : Registered s) (hpl : (s.playerHeap p).isSome) : (s'.playerHeap p).isSome := by
  obtain ⟨pl, hpl⟩ := Option.isSome_iff_exists.1 hpl
  cases he with
  | quiet | takeRemovals | serverBuffer | schedule | spawn => exact Option.isSome_iff_exists.2 ⟨pl, hpl⟩
  | @enter _ conn fd teamName draw teamId =>
    have hvitals : (enterGame cfg s conn fd teamId draw).vitalsOf p = s.vitalsOf p :=
      enterGame_vitals hreg (by rw [Server.vitalsOf, hpl]; rfl)
    have hsome := congrArg Option.isSome hvitals
    rw [Server.vitalsOf, Server.vitalsOf, Option.isSome_map, Option.isSome_map, hpl] at hsome
    exact hsome
  | kill =>
    change ((s.modPlayer _ _).playerHeap p).isSome
    rw [modPlayer_heap, hpl]
    split <;> rfl
  | _ => exact absurd rfl (ha _ _)

private theorem gameStep_player_stays (ha : ∀ chance i, a ≠ .playSlot chance i) (hwf : BuffersWF s)
    (hreg : Registered s) (h : gameStep cfg s a = some s') (hpl : (s.playerHeap p).isSome) :
    (s'.playerHeap p).isSome := by
  have heff := gameStep_effects hwf h
  clear h
  refine (?_ : Registered s' ∧ (s'.playerHeap p).isSome).2
  induction heff with
  | refl => exact ⟨hreg, hpl⟩
  | tail _ he ih => exact ⟨he.registered ih.1, he.player_stays ha ih.1 ih.2⟩

/-- An event is executed for a client whose own player is alive. -/
theorem executed_some {ev : Event} (h : executed s a = some ev) : ∃ chance i c cl pl, a = .playSlot chance i ∧
    AtSlot s i c cl pl ∧ s.now < pl.dieTime ∧ 0 < cl.eventBuffer.count ∧
      ev = cl.eventBuffer.events cl.eventBuffer.head := by
  cases a with
  | playSlot chance i =>
    simp only [executed] at h
    split at h
    · rename_i c hi
      simp only [Option.bind_eq_some_iff] at h
      obtain ⟨cl, hcl, pl, hpl, h⟩ := h
      split at h
      · rename_i hboth
        obtain ⟨halive, hdue⟩ := hboth
        simp only [playerIsAlive, decide_eq_true_eq, gt_iff_lt] at halive
        simp only [clientHasActions, Bool.and_eq_true, decide_eq_true_eq, gt_iff_lt] at hdue
        exact ⟨chance, i, c, cl, pl, rfl, ⟨hi, hcl, hpl⟩, halive, hdue.1, (Option.some.inj h).symm⟩
      · cases h
    · cases h
  | _ => cases h

/-! ### The machine -/

/-- The event of a player that a step of the machine executes.  The buffer of the server holds no such events: it
calls back nothing but `m_game_spawn_resources`. -/
def Machine.executes (m : Machine) : MachineAction → Option Event
  | .playSlot chance => match m.phase with
    | .play i => executed m.server (.playSlot chance i)
    | _ => none
  | _ => none

/-- What a step of the machine adds to the food that `p` has taken and not put down. -/
def Machine.foodMoved (p : Addr) (m : Machine) (act : MachineAction) : Int :=
  match m.executes act with
  | some ev => ev.foodMoved m.server p
  | none => 0

theorem Fed.congr {F : Int} (h : Fed cfg p F s) (hheap : s'.playerHeap = s.playerHeap)
    (hledger : s'.ledger = s.ledger) (haddr : s'.nextAddr = s.nextAddr) : Fed cfg p F s' := by
  constructor
  case unborn => rw [haddr, Server.eaten, hledger]; exact h.unborn
  case account =>
    rw [Server.foodOf, Server.startOf, Server.Unhit, Server.eaten, hheap, hledger]
    exact h.account

private theorem machineStep_fed (hwf : BuffersWF m.server) (hreg : Registered m.server)
    (hstep : machineStep cfg m act = some m') {F : Int} (h : Fed cfg p F m.server) :
    Fed cfg p (F + m.foodMoved p act) m'.server := by
  have hother : (∀ chance, act ≠ .playSlot chance) → Fed cfg p F m'.server := by
    intro hact
    refine (machineStep_server hstep).registered_invariant (fun s a s' hs hin hwf hreg h => ?_) hwf hreg h
    have hfed := gameStep_fed hwf hreg hs h
    have hzero : foodMoved p s a = 0 := by
      cases hev : executed s a with
      | none => rw [foodMoved, hev]
      | some ev =>
        obtain ⟨chance, i, -, -, -, rfl, -⟩ := executed_some hev
        exact absurd (hin.turn chance i rfl) (hact chance)
    rwa [hzero, add_zero] at hfed
  cases act with
  | playSlot chance =>
    cases machineStep_move hstep with
    | @playSlot _ i s₁ hphase hi hplay =>
      have hfed : Fed cfg p (F + foodMoved p m.server (.playSlot chance i)) s₁ :=
        gameStep_fed (a := .playSlot chance i) hwf hreg hplay h
      rw [Machine.foodMoved, Machine.executes, hphase]
      exact hfed.congr rfl rfl rfl
  | _ =>
    have hfed := hother (by simp)
    rw [← add_zero F] at hfed
    exact hfed

/-- A player that is gone after a step of the machine was due in the turn of a slot, and had no food. -/
private theorem machineStep_gone (hwf : BuffersWF m.server) (hreg : Registered m.server)
    (hstep : machineStep cfg m act = some m') (hpl : m.server.playerHeap p = some pl)
    (hgone : m'.server.playerHeap p = none) :
    (∃ chance, act = .playSlot chance) ∧ pl.dieTime ≤ m.server.now ∧ pl.inv.nourriture ≤ 0 := by
  have hother : (∀ chance, act ≠ .playSlot chance) → False := by
    intro hact
    have hstays : (m'.server.playerHeap p).isSome := by
      refine (machineStep_server hstep).registered_invariant (I := fun s => (s.playerHeap p).isSome)
        (fun s a s' hs hin hwf hreg hsome => ?_) hwf hreg (by rw [hpl]; rfl)
      have ha : ∀ chance i, a ≠ .playSlot chance i := fun chance i ha => hact chance (hin.turn chance i ha)
      exact gameStep_player_stays ha hwf hreg hs hsome
    rw [hgone] at hstays
    cases hstays
  cases act with
  | playSlot chance =>
    cases machineStep_move hstep with
    | playSlot hphase hi hplay => exact ⟨⟨chance, rfl⟩, (gamePlaySlot_meal hplay).gone hpl hgone⟩
  | _ => exact (hother (by simp)).elim

/-! ### Runs -/

/-- What the account of the food of `p` says of a state, after a run in which `p` has taken `F` units more than it has
put down. -/
structure Accounted (cfg : Config) (p : Addr) (F : Int) (m : Machine) : Prop where
  /-- `die_time = start_time + LIFE_UNIT * (START_LIFE_UNITS + eaten)`, when nothing overflows. -/
  dieTime : ∀ pl, m.server.playerHeap p = some pl → m.server.Unhit p →
    cfg.deadline pl.startTime (m.server.eaten p) < 2 ^ 64 →
    (pl.dieTime : Int) = cfg.deadline pl.startTime (m.server.eaten p)
  /-- What the player has eaten and what it carries is what it has taken and not put down. -/
  balance : ∀ pl, m.server.playerHeap p = some pl → m.server.Unhit p → m.server.eaten p + pl.inv.nourriture = F
  /-- A step that frees the player is a turn of `game_play`, not before the time that all this food has bought. -/
  removal : ∀ act m' pl, machineStep cfg m act = some m' → m.server.playerHeap p = some pl → m.server.Unhit p →
    m'.server.playerHeap p = none → (∃ chance, act = .playSlot chance) ∧
    (cfg.deadline pl.startTime F < 2 ^ 64 → cfg.deadline pl.startTime F ≤ m.server.now)

/-- What the life of the player `p` owes to its food. -/
structure SurvivalOK (cfg : Config) (p : Addr) (F : Int) (m : Machine) : Prop extends Accounted cfg p F m where
  /-- No event of the player is executed at or past its time of death. -/
  events : ∀ act ev pl, m.executes act = some ev → ev.data = some p → m.server.playerHeap p = some pl →
    m.server.now < pl.dieTime

private theorem deadline_nonneg (hlife : 0 ≤ cfg.lifeUnit) (hunits : 0 ≤ cfg.startLifeUnits) (start n : Nat) :
    0 ≤ cfg.deadline start n := by
  have hproduct : 0 ≤ cfg.lifeUnit * (cfg.startLifeUnits + n) := mul_nonneg hlife (by omega)
  unfold Config.deadline
  omega

private theorem u64_eq {z : Int} (h : 0 ≤ z) (hlt : z < 2 ^ 64) : (u64 z : Int) = z := by
  unfold u64
  omega

private theorem Fed.accounted (hlife : 0 ≤ cfg.lifeUnit) (hunits : 0 ≤ cfg.startLifeUnits) (hwf : BuffersWF m.server)
    (hreg : Registered m.server) {F : Int} (h : Fed cfg p F m.server) : Accounted cfg p F m := by
  have haccount : ∀ pl, m.server.playerHeap p = some pl → m.server.Unhit p →
      pl.dieTime = u64 (cfg.deadline pl.startTime (m.server.eaten p)) ∧
        m.server.eaten p + pl.inv.nourriture = F ∧ 0 ≤ pl.inv.nourriture :=
    fun pl hpl => h.account _ _ _ (foodOf_eq hpl) (by rw [Server.startOf, hpl, Option.map_some])
  have hpos : ∀ start, 0 ≤ cfg.deadline start (m.server.eaten p) := fun start =>
    deadline_nonneg hlife hunits start _
  constructor
  case dieTime =>
    intro pl hpl hno hlt
    rw [(haccount pl hpl hno).1, u64_eq (hpos _) hlt]
  case balance => exact fun pl hpl hno => (haccount pl hpl hno).2.1
  case removal =>
    intro act m' pl hstep hpl hno hgone
    obtain ⟨hturn, hdue, hfood⟩ := machineStep_gone hwf hreg hstep hpl hgone
    refine ⟨hturn, fun hlt => ?_⟩
    obtain ⟨hdie, hsum, hcarried⟩ := haccount pl hpl hno
    -- nothing is left, so all the food that was taken has been eaten
    obtain rfl : F = m.server.eaten p := by omega
    rw [hdie] at hdue
    have htime := u64_eq (hpos pl.startTime) hlt
    omega

/-- In every state a run reaches, the food of every player is accounted for. -/
private theorem food_accounted (hlife : 0 ≤ cfg.lifeUnit) (hunits : 0 ≤ cfg.startLifeUnits) (width height : Nat)
    (teams : List String) (nbClients : Nat) (counts : Nat → InventoryType → Nat) (as : List MachineAction)
    (h : run (machineStep cfg) (machineInit cfg width height teams nbClients counts) as = some m) (p : Addr) :
    Accounted cfg p (total (machineStep cfg) (Machine.foodMoved p)
      (machineInit cfg width height teams nbClients counts) as) m := by
  obtain ⟨hwf, hreg, hfed⟩ := Guarded.total (G := fun _ _ => True)
    (I := fun F m => BuffersWF m.server ∧ Registered m.server ∧ Fed cfg p F m.server)
    (fun F m act m' hstep _ hI => ⟨(machineStep_server hstep).buffersWF hI.1,
      (machineStep_server hstep).registered hI.1 hI.2.1, machineStep_fed hI.1 hI.2.1 hstep hI.2.2⟩)
    (.of_forall fun _ _ _ _ => trivial) h ⟨buffersWF_init _ _ _, registered_init _ _ _ _ _, fed_init _ _ _ _ _ _⟩
  rw [zero_add] at hfed
  exact hfed.accounted hlife hunits hwf hreg

/-- A login that is heard and joins a team is the first one of its connection. -/
def Machine.FirstLogin (m : Machine) : MachineAction → Prop
  | .receive (.text (some msg)) _ => ∀ fd rest teamName k, m.phase = .scan (fd :: rest) → m.heard fd = some k →
      msg.joins = some teamName → MayJoin m.server teamName → k ∉ m.server.logins
  | _ => True

/-- Each connection logs in at most once, and `accept` returns no descriptor on which a handshake is pending. -/
structure SurvivalGuard (m : Machine) (act : MachineAction) : Prop where
  login : m.FirstLogin act
  accept : AcceptIdle m act

/-- Whoever is heard on the descriptor of a client has logged in. -/
private theorem SurvivalGuard.sessionGuard (hG : SurvivalGuard m act) (h : m.Sessions) : SessionGuard m act := by
  refine ⟨?_, hG.accept⟩
  have hlogin := hG.login
  unfold Machine.LoginOnce
  split
  · rename_i msg draw
    rintro fd rest teamName hphase hheard hjoins hjoin ⟨c, cl, hc, rfl⟩
    obtain ⟨k, hk⟩ := Option.isSome_iff_exists.1 hheard
    have hown : k = cl.conn := h.heardOwn c cl hc k hk
    have hfirst : k ∉ m.server.logins := hlogin cl.socketFd rest teamName k hphase hk hjoins hjoin
    rw [hown] at hfirst
    exact hfirst (h.game.loggedIn c cl hc)
  · trivial

/-- What is executed in the turn of a client is about its own player, which is alive. -/
private theorem Machine.Sessions.executes_alive (h : m.Sessions) {ev : Event} (hev : m.executes act = some ev)
    (hdata : ev.data = some p) (hpl : m.server.playerHeap p = some pl) : m.server.now < pl.dieTime := by
  cases act with
  | playSlot chance =>
    rw [Machine.executes] at hev
    split at hev
    · obtain ⟨_, i, c, cl, r, -, hat, halive, hcount, rfl⟩ := executed_some hev
      have hqueued := EventBuffer.queued_pop (h.game.wf.client c cl hat.client) hcount
      have hown := (h.game.events c cl ⟨mem_of_getElem? hat.slot, hat.client⟩ _
        (by rw [hqueued]; exact List.mem_cons_self)).1
      obtain rfl : p = cl.player := Option.some.inj (hdata.symm.trans hown)
      obtain rfl := Option.some.inj (hpl.symm.trans hat.player)
      exact halive
    · cases hev
  | _ => cases hev

/-- In every run in which each connection logs in at most once and `accept` returns no descriptor on which a handshake
is pending, the food of every player is accounted for, and none of its events is executed at or past its time of
death. -/
theorem survival_accounted (cfg : Config) (hlife : 0 ≤ cfg.lifeUnit) (hunits : 0 ≤ cfg.startLifeUnits)
    (width height : Nat) (teams : List String) (nbClients : Nat) (counts : Nat → InventoryType → Nat)
    (as : List MachineAction) {m : Machine}
    (hG : Guarded (machineStep cfg) SurvivalGuard (machineInit cfg width height teams nbClients counts) as)
    (h : run (machineStep cfg) (machineInit cfg width height teams nbClients counts) as = some m) (p : Addr) :
    SurvivalOK cfg p (total (machineStep cfg) (Machine.foodMoved p)
      (machineInit cfg width height teams nbClients counts) as) m := by
  have hs : m.Sessions := hG.invariant (I := Machine.Sessions)
    (fun m act m' hstep hG hI => hI.step (hG.sessionGuard hI) hstep) h (sessions_init _ _ _ _ _)
  exact ⟨food_accounted hlife hunits _ _ _ _ _ _ h p, fun act ev pl hev hdata hpl => hs.executes_alive hev hdata hpl⟩

/-- A test for `FirstLogin`. -/
def firstLoginTest (m : Machine) : MachineAction → Bool
  | .receive (.text (some msg)) _ =>
    match m.phase with
    | .scan (fd :: _) => msg.joins.isNone || (m.heard fd).all fun k => !m.server.logins.contains k
    | _ => true
  | _ => true

private theorem firstLogin_of_test (m : Machine) (act : MachineAction) (h : firstLoginTest m act) :
    m.FirstLogin act := by
  unfold Machine.FirstLogin
  split
  · rename_i msg draw
    intro fd rest teamName k hphase hheard hjoins _
    simpa [firstLoginTest, hphase, hheard, hjoins] using h
  · trivial

/-- A test for `SurvivalGuard`. -/
def survivalTest (m : Machine) : MachineAction → Bool
  | .accept fd => !m.pending.contains fd
  | act => firstLoginTest m act

private theorem survivalGuard_of_test (m : Machine) (act : MachineAction) (h : survivalTest m act) :
    SurvivalGuard m act := by
  cases act with
  | accept fd => exact ⟨trivial, by simpa [AcceptIdle, survivalTest] using h⟩
  | _ => exact ⟨firstLogin_of_test m _ h, trivial⟩

/-- A server on one tile, with one unit of each resource and two places. -/
def survivalMachine : Machine := machineInit shippedConfig 1 1 ["red"] 2 fun _ _ => 1

/-- A command is received on `fd`. -/
def receives (fd : Fd) (cmd : String) (arg : Option String) : List MachineAction :=
  scanPass [fd] [.receive (.text (some { type := "cmd", cmd := cmd, arg := arg })) ⟨0, 0, 0⟩] 0

/-- A pass at the time `t` in which nobody is heard. -/
def laterPass (t : Nat) : List MachineAction := .tick t :: scanPass [3] [.acceptFailed] 0

/-- A player takes a unit of food, and eats it when its time has come. -/
def livesOn : List MachineAction := enters 4 ++ receives 4 "prend" (some "nourriture") ++ laterPass 7 ++ laterPass 1300

theorem survival_accounted_eaten : ∃ m,
    run (machineStep shippedConfig) survivalMachine livesOn = some m ∧ m.server.eaten 1 = 1 ∧
      (m.server.playerHeap 1).map Player.dieTime = some 1386 ∧ SurvivalOK shippedConfig 1 1 m := by
  have hrun : (run (machineStep shippedConfig) survivalMachine livesOn).map
      (fun m => (m.server.eaten 1, (m.server.playerHeap 1).map Player.dieTime)) = some (1, some 1386) := by
    decide +kernel
  have hguard : testGuard (machineStep shippedConfig) survivalTest survivalMachine livesOn := by decide +kernel
  have htotal : total (machineStep shippedConfig) (Machine.foodMoved 1) survivalMachine livesOn = 1 := by
    decide +kernel
  obtain ⟨m, hm, he⟩ := Option.map_eq_some_iff.1 hrun
  obtain ⟨heaten, hdie⟩ := Prod.mk.inj he
  have hok := survival_accounted shippedConfig (by decide) (by decide) 1 1 ["red"] 2 (fun _ _ => 1) _
    (.of_test survivalGuard_of_test hguard) hm 1
  refine ⟨m, hm, heaten, hdie, ?_⟩
  rw [← htotal]
  exact hok

/-- A connection is closed by the removal queued for the one that had its descriptor before, while its handshake is
pending.  The handshake fails after the next connection has logged in on the descriptor and has sent an incantation,
and closes that connection, whose player lives on.  The next one to get the descriptor logs in too, in front of that
player, and gets the completion of the incantation into its buffer. -/
def staleCompletion : List MachineAction :=
  enters 4 ++ enters 5 ++ scanPass [5] [.receive .closed ⟨0, 0, 0⟩] 0 ++ scanPass [3] [.accept 5] 1 ++ enters 5 ++
    receives 5 "fork" none ++ receives 5 "incantation" none ++ scanPass [4] [.receive .closed ⟨0, 0, 0⟩] 0 ++
    (.tick 5 :: scanPass [3] [.handshake false, .accept 5] 1) ++ handshakePass ++
    scanPass [5] [.receive loginMessage ⟨0, 0, 0⟩] 0 ++ laterPass 50 ++ laterPass 50 ++
    [.tick 1262, .lookupEnd, .select [3], .acceptFailed, .scanEnd, .drainEnd]

/-- Each connection logs in once; the completion is due to run after the time of death of its player. -/
theorem completion_outlives_player : ∃ m,
    run (machineStep shippedConfig) survivalMachine staleCompletion = some m ∧
      Guarded (machineStep shippedConfig) Machine.FirstLogin survivalMachine staleCompletion ∧ m.server.Unhit 5 ∧
      ∀ F, ¬ SurvivalOK shippedConfig 5 F m := by
  have hrun : (run (machineStep shippedConfig) survivalMachine staleCompletion).bind
      (fun m => (m.executes (.playSlot {})).bind fun ev => (m.server.playerHeap 5).map fun pl =>
        (ev.data, decide (m.server.now < pl.dieTime), m.server.diet 5)) = some (some 5, false, []) := by
    decide +kernel
  have hguard : testGuard (machineStep shippedConfig) firstLoginTest survivalMachine staleCompletion := by
    decide +kernel
  obtain ⟨m, hm, hrun⟩ := Option.bind_eq_some_iff.1 hrun
  obtain ⟨ev, hev, hrun⟩ := Option.bind_eq_some_iff.1 hrun
  obtain ⟨pl, hpl, hfacts⟩ := Option.map_eq_some_iff.1 hrun
  simp only [Prod.mk.injEq, decide_eq_false_iff_not] at hfacts
  obtain ⟨hdata, hlate, hdiet⟩ := hfacts
  refine ⟨m, hm, .of_test firstLogin_of_test hguard, ?_, fun F hok => hlate (hok.events _ ev pl hev hdata hpl)⟩
  rw [unhit_iff, hdiet]
  exact fun _ => List.not_mem_nil

end Zappy

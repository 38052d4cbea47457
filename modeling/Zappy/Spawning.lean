import Zappy.Effects
import Zappy.Placement
import Zappy.Lib.Laps

/-!
# The respawning of resources (`m_game_spawn_resources`)

The cursor `m_ctx.next_idx` goes round the tiles of the map in batches, and each execution schedules the next one in
the buffer of the server, which is empty at that time.  Nothing else writes the cursor or this buffer.
-/

namespace Zappy

open LinkedList Relation Run Laps

variable {cfg : Config} {a : GameAction} {s s' : Server} {chance : Chance} {width height : Nat}

/-! ### Executions -/

/-- The tiles that `m_game_spawn_resources` visits, in order. -/
def Server.batch (s : Server) : List Nat := (List.range s.spawnBatch).map s.visited

/-- The first event of the server's buffer is due, and calls back `m_game_spawn_resources`. -/
def Server.spawnDue (s : Server) : Bool :=
  0 < s.eventBuffer.count && (s.eventBuffer.events s.eventBuffer.head).execTime ≤ s.now &&
    (s.eventBuffer.events s.eventBuffer.head).callback == some .spawnResources

/-- The executions of `m_game_spawn_resources` in a step, each with its time and the tiles it visits. -/
def Server.spawns (s : Server) : GameAction → List (Nat × List Nat)
  | .playServer _ => if s.spawnDue then [(s.now, s.batch)] else []
  | _ => []

/-- The executions of `m_game_spawn_resources` in a run. -/
def spawnsOf (cfg : Config) : Server → List GameAction → List (Nat × List Nat)
  | _, [] => []
  | s, a :: as => s.spawns a ++ match gameStep cfg s a with
    | some s' => spawnsOf cfg s' as
    | none => []

/-- All tiles visited, in order. -/
def visits (log : List (Nat × List Nat)) : List Nat := log.flatMap Prod.snd

/-- The time of the last execution, or that of `game_init`. -/
def lastSpawn (log : List (Nat × List Nat)) : Nat := (log.getLast?.map Prod.fst).getD 0

/-- What an execution with the tiles of `batch` does to the map: the tile of turn `i` gains the counts drawn in that
turn, unless it has more than fifteen items, and no other tile changes. -/
structure Respawned (counts : Nat → InventoryType → Nat) (batch : List Nat) (s s' : Server) : Prop where
  gains : ∀ i t, batch[i]? = some t → (s.map t).items.sum ≤ 15 →
    s'.map t = { s.map t with items := (s.map t).items.plus (inventoryOf (counts i)) }
  full : ∀ t, 15 < (s.map t).items.sum → s'.map t = s.map t
  rest : ∀ t, t ∉ batch → s'.map t = s.map t

/-- What `m_game_spawn_resources` owes to the map and to its schedule, after the executions of `log`. -/
structure SpawningOK (cfg : Config) (width height : Nat) (log : List (Nat × List Nat)) (s : Server) : Prop where
  /-- Every execution visits the same number of tiles, at least one. -/
  batches : ∀ e ∈ log, e.2.length = min (max ((width * height * 5 + 99) / 100) 1) 1000
  /-- The tiles are visited in the order of their indexes, lap after lap. -/
  order : visits log = laps (width * height) (visits log).length
  /-- No tile is more than one visit behind another. -/
  fair : ∀ t < width * height, ∀ u < width * height, (visits log).count t ≤ (visits log).count u + 1
  /-- The next execution is queued, and nothing else. -/
  queued : ∃ ev, s.eventBuffer.queued = [ev] ∧ ev.callback = some .spawnResources ∧
    ev.execTime = u64 (lastSpawn log + cfg.spawnPeriod)
  /-- The tiles logged for a turn of the server's buffer are those that it fills up. -/
  effect : ∀ chance s', gameStep cfg s (.playServer chance) = some s' →
    Respawned chance.counts (visits (s.spawns (.playServer chance))) s s'
  /-- A turn of the server's buffer changes no tile that it does not visit or that has more than fifteen items, and
  takes nothing away. -/
  grows : ∀ chance s', gameStep cfg s (.playServer chance) = some s' → ∀ t,
    (15 < (s.map t).items.sum ∨ t ∉ visits (s.spawns (.playServer chance)) → s'.map t = s.map t) ∧
      ∀ r, (s.map t).items.get r ≤ (s'.map t).items.get r
  /-- No event of a player calls back `m_game_spawn_resources`. -/
  apart : ∀ c cl, s.clientHeap c = some cl → ∀ ev ∈ cl.eventBuffer.queued, ev.callback ≠ some .spawnResources
  /-- The values that the function computes with fit an `int`. -/
  ranges : 5 * (width * height) + 99 < 2 ^ 31 → s.nextIdx + s.spawnBatch < 2 ^ 31

/-! ### What leaves the cursor alone -/

/-- What the schedule of the spawning depends on. -/
def Server.spawning (s : Server) : Nat × Nat × Nat × EventBuffer := (s.mapX, s.mapY, s.nextIdx, s.eventBuffer)

private theorem SameControl.spawning {p : Addr} (h : SameControl p s s') : s'.spawning = s.spawning := by
  rw [h.rest]
  rfl

private theorem runCallback_spawning {ev : Event} (hev : ev.callback ≠ some .spawnResources)
    (h : runCallback cfg chance ev s = some s') : s'.spawning = s.spawning := by
  unfold runCallback at h
  split at h
  · cases h; rfl
  · rename_i hspawn
    exact absurd hspawn hev
  · rename_i type _
    simp only [Option.bind_eq_some_iff] at h
    obtain ⟨p, -, pl, -, h⟩ := h
    by_cases htype : type = .incantation
    · subst htype
      obtain rfl | ⟨-, rfl⟩ := commandIncantation_cases h
      · rfl
      · rw [queueCompletion_rest]
        rfl
    · exact (runCommand_control htype h).spawning
  · simp only [Option.bind_eq_some_iff] at h
    obtain ⟨p, -, pl, -, h⟩ := h
    rw [commandRealIncantation_control h]
    rfl

/-- The events of players are about commands and incantations. -/
def PlayersApart (s : Server) : Prop :=
  ∀ c cl, s.clientHeap c = some cl → ∀ i, (cl.eventBuffer.events i).callback ≠ some .spawnResources

private theorem gamePlaySlot_spawning (hapart : PlayersApart s) {i : Nat} (h : gamePlaySlot cfg chance s i = some s') :
    s'.spawning = s.spawning := by
  cases gamePlaySlot_cases h with
  | empty => rfl
  | eats => rfl
  | dies hat hdead hfood =>
    rw [(gamePlayerDie_deceased cfg s _ _ hfood).rest]
    rfl
  | waits => rfl
  | @plays c cl pl _ hat halive hdue hrun =>
    rcases process_cases hrun with ⟨rfl, -⟩ | ⟨-, -, s₂, hcall, hend⟩
    · rfl
    · have hcalled : s₂.spawning = s.spawning := by
        rw [clientBuffer_eq hat.client] at hcall
        exact runCallback_spawning (s := s.setClientBuffer c cl.eventBuffer.pop) (hapart c cl hat.client _)
          (runCallback_of_called hcall)
      rcases hend with ⟨rfl, -⟩ | ⟨arg, -, -, rfl⟩
      · exact hcalled
      · exact hcalled

private theorem gameRegisterPlayer_spawning (conn : Conn) (fd : Fd) (teamName : String) (draw : StartDraw) :
    (gameRegisterPlayer cfg s conn fd teamName draw).2.spawning = s.spawning := by
  unfold gameRegisterPlayer
  split
  · rfl
  · split
    · rfl
    · split
      · rfl
      · rw [enterGame_eq, onTile, (addPlayer_same _ _ _).rest]
        rfl

/-- Outside the turns of its own buffer nothing touches the schedule of the server. -/
private theorem gameStep_spawning (hapart : PlayersApart s) (ha : ∀ chance, a ≠ .playServer chance)
    (h : gameStep cfg s a = some s') : s'.spawning = s.spawning := by
  cases a with
  | tick | accepted | send | takeRemovals | flush => cases h; rfl
  | register conn fd teamName draw => cases h; exact gameRegisterPlayer_spawning conn fd teamName draw
  | execute conn fd cmd arg =>
    cases h
    unfold gameExecuteCommand
    split
    · rfl
    · split
      · rfl
      · cases arg <;> rfl
  | kill fd =>
    cases h
    unfold gameKillPlayer
    split
    · rfl
    · split
      · rfl
      · split <;> rfl
  | playSlot chance i => exact gamePlaySlot_spawning hapart h
  | playServer chance => exact absurd rfl (ha chance)

/-! ### The events of the players -/

theorem PlayersApart.setClientBuffer (h : PlayersApart s) {c : Addr} {cl : Client} {b : EventBuffer}
    (hcl : s.clientHeap c = some cl) (hb : ∀ i, (b.events i).callback ≠ some .spawnResources) :
    PlayersApart (s.setClientBuffer c b) := by
  intro d dl hd
  rw [setClientBuffer_heap b hcl] at hd
  split at hd
  · cases hd; exact hb
  · exact h d dl hd

/-- An event written to a slot. -/
private theorem update_callback {events : Nat → Event} (h : ∀ i, (events i).callback ≠ some .spawnResources)
    {ev : Event} (hev : ev.callback ≠ some .spawnResources) (j i : Nat) :
    (Function.update events j ev i).callback ≠ some .spawnResources := by
  rw [Function.update_apply]
  split
  · exact hev
  · exact h i

theorem Effect.playersApart (he : Effect cfg a s s') (h : PlayersApart s) : PlayersApart s' := by
  cases he with
  | schedule hc hcl hb =>
    refine h.setClientBuffer hcl ?_
    unfold timeApiScheduleClientEvent at hb
    split at hb
    · cases hb
    · cases hb
      exact update_callback (h _ _ hcl) (by simp) _
  | pop hi hcl hcount => exact h.setClientBuffer hcl (h _ _ hcl)
  | @clearArg _ chance i c cl j hcl hq =>
    have hkept : ({ cl.eventBuffer.events j with arg := none } : Event).callback ≠ some .spawnResources := h c cl hcl j
    exact h.setClientBuffer hcl (update_callback (h c cl hcl) hkept j)
  | front hpl hc hcl hb =>
    refine h.setClientBuffer hcl ?_
    unfold timeApiScheduleClientEventFront at hb
    split at hb
    · cases hb
    · cases hb
      exact update_callback (h _ _ hcl) (by simp) _
  | enter hname ht hfull =>
    rw [enterGame_eq]
    intro d dl hd i
    simp only [onTile_clientHeap, allocPlayer, Function.update_apply] at hd
    split at hd
    · cases hd
      exact fun hnone => by cases hnone
    · exact h d dl hd i
  | move hpl hql => rwa [PlayersApart, (movePlayer_same _ _ _).rest]
  | @die _ chance i c cl pl hi hcl hpl hfood =>
    intro d dl hd i
    rcases (gamePlayerDie_deceased cfg s c cl hfood).clientHeap d with hsame | ⟨-, hgone⟩
    · rw [hsame] at hd
      exact h d dl hd i
    · rw [hgone] at hd
      cases hd
  | _ => exact h

/-! ### One execution -/

private theorem visited_eq (s : Server) (i : Nat) : s.visited i = (s.nextIdx + i) % s.mapSize := by
  rw [Server.visited, Server.mapIndex, Nat.div_add_mod']

/-- One turn of the loop changes no tile but the one it visits, and that one only if it has at most fifteen items. -/
private theorem spawnTurn_map (counts : Nat → InventoryType → Nat) (s : Server) (i t : Nat) :
    (15 < (s.map t).items.sum ∨ t ≠ s.visited i → (spawnTurn counts s i).map t = s.map t) ∧
      ∀ r, (s.map t).items.get r ≤ ((spawnTurn counts s i).map t).items.get r := by
  unfold spawnTurn
  dsimp only
  split
  · exact ⟨fun _ => rfl, fun _ => Int.le_refl _⟩
  · rename_i hfew
    constructor
    · intro h
      have hne : t ≠ s.visited i := by
        rintro rfl
        exact h.elim hfew fun hne => hne rfl
      exact Function.update_of_ne hne _ _
    · intro r
      change _ ≤ (Function.update s.map (s.visited i) _ t).items.get r
      rw [Function.update_apply]
      split
      · rename_i ht
        rw [ht, Inventory.get_plus, get_inventoryOf]
        exact Int.le_add_of_nonneg_right (Int.natCast_nonneg _)
      · exact Int.le_refl _

private theorem visited_spawnTurn (counts : Nat → InventoryType → Nat) (s : Server) (i : Nat) :
    (spawnTurn counts s i).visited = s.visited := by
  have hrest := spawnTurns_rest counts [i] s
  rw [List.foldl_cons, List.foldl_nil] at hrest
  rw [hrest]
  rfl

/-- The loop over a batch. -/
private theorem spawnTurns_map (counts : Nat → InventoryType → Nat) (l : List Nat) (s : Server) (t : Nat) :
    (15 < (s.map t).items.sum ∨ t ∉ l.map s.visited → (l.foldl (spawnTurn counts) s).map t = s.map t) ∧
      ∀ r, (s.map t).items.get r ≤ ((l.foldl (spawnTurn counts) s).map t).items.get r := by
  induction l generalizing s with
  | nil => exact ⟨fun _ => rfl, fun _ => Int.le_refl _⟩
  | cons i l ih =>
    have hvisited := visited_spawnTurn counts s i
    obtain ⟨hkeep, hgrow⟩ := spawnTurn_map counts s i t
    obtain ⟨hkeep', hgrow'⟩ := ih (spawnTurn counts s i)
    rw [List.foldl_cons]
    refine ⟨fun h => ?_, fun r => Int.le_trans (hgrow r) (hgrow' r)⟩
    have hne : 15 < (s.map t).items.sum ∨ t ≠ s.visited i :=
      h.imp_right fun hmem heq => hmem (List.mem_map.2 ⟨i, List.mem_cons_self, heq.symm⟩)
    have hrest : 15 < (s.map t).items.sum ∨ t ∉ l.map s.visited :=
      h.imp_right fun hmem hl => hmem (by rw [List.map_cons]; exact List.mem_cons_of_mem _ hl)
    rw [hkeep', hkeep hne]
    rwa [hkeep hne, hvisited]

/-- The turn that visits a tile with at most fifteen items fills it up. -/
private theorem spawnTurn_gains (counts : Nat → InventoryType → Nat) (s : Server) (i : Nat)
    (hfew : ¬15 < (s.map (s.visited i)).items.sum) :
    (spawnTurn counts s i).map (s.visited i) = { s.map (s.visited i) with
      items := (s.map (s.visited i)).items.plus (inventoryOf (counts i)) } := by
  unfold spawnTurn
  dsimp only
  rw [if_neg hfew]
  exact Function.update_self ..

/-- A lap over tiles that are all different puts on each what the visit to it brings, if it is not full. -/
theorem spawnTurns_tile (counts : Nat → InventoryType → Nat) (l : List Nat) (s : Server)
    (hl : (l.map s.visited).Nodup) (t : Nat) :
    (l.foldl (spawnTurn counts) s).map t =
      if 15 < (s.map t).items.sum then s.map t
      else match l.find? fun i => s.visited i == t with
        | some i => { s.map t with items := (s.map t).items.plus (inventoryOf (counts i)) }
        | none => s.map t := by
  induction l generalizing s with
  | nil => simp
  | cons i l ih =>
    rw [List.map_cons, List.nodup_cons] at hl
    have hvisited := visited_spawnTurn counts s i
    have hkeep := (spawnTurn_map counts s i t).1
    rw [List.foldl_cons]
    by_cases ht : s.visited i = t
    · -- the rest of the lap does not come back to the tile
      have hback : t ∉ l.map (spawnTurn counts s i).visited := by
        rw [hvisited, ← ht]
        exact hl.1
      have hfound : (s.visited i == t) = true := beq_iff_eq.2 ht
      rw [(spawnTurns_map counts l (spawnTurn counts s i) t).1 (Or.inr hback), List.find?_cons, hfound]
      dsimp only
      by_cases hfull : 15 < (s.map t).items.sum
      · rw [if_pos hfull, hkeep (Or.inl hfull)]
      · rw [if_neg hfull, ← ht]
        exact spawnTurn_gains counts s i (by rwa [ht])
    · have hother : (s.visited i == t) = false := beq_eq_false_iff_ne.2 ht
      rw [ih (spawnTurn counts s i) (by rw [hvisited]; exact hl.2), hkeep (Or.inr fun he => ht he.symm), hvisited,
        List.find?_cons, hother]

/-- A batch visits no tile twice. -/
theorem batch_nodup (hsize : 0 < s.mapSize) : s.batch.Nodup := by
  have hle : s.spawnBatch ≤ s.mapSize := by
    unfold Server.spawnBatch
    omega
  refine List.Nodup.map_on (fun i hi j hj he => ?_) List.nodup_range
  rw [List.mem_range] at hi hj
  rw [visited_eq, visited_eq] at he
  have hmod : i % s.mapSize = j % s.mapSize := Nat.ModEq.add_left_cancel' s.nextIdx he
  rwa [Nat.mod_eq_of_lt (Nat.lt_of_lt_of_le hi hle), Nat.mod_eq_of_lt (Nat.lt_of_lt_of_le hj hle)] at hmod

/-- The turn that is found for the tile of turn `i` is turn `i`. -/
private theorem find_turn (hsize : 0 < s.mapSize) {i t : Nat} (hi : s.batch[i]? = some t) :
    (List.range s.spawnBatch).find? (fun j => s.visited j == t) = some i := by
  rw [Server.batch, List.getElem?_map, Option.map_eq_some_iff] at hi
  obtain ⟨i', hi', ht⟩ := hi
  obtain ⟨hlt, rfl⟩ := List.getElem?_eq_some_iff.1 hi'
  rw [List.getElem_range] at ht
  rw [List.length_range] at hlt
  cases hfound : (List.range s.spawnBatch).find? fun j => s.visited j == t with
  | none =>
    have hnot := List.find?_eq_none.1 hfound i (List.mem_range.2 hlt)
    exact absurd (beq_iff_eq.2 ht) hnot
  | some j =>
    have hj : (s.visited j == t) = true := List.find?_some (p := fun j => s.visited j == t) hfound
    have hmem : j < s.spawnBatch := List.mem_range.1 (List.mem_of_find?_eq_some hfound)
    have heq := List.inj_on_of_nodup_map (batch_nodup hsize) (List.mem_range.2 hmem) (List.mem_range.2 hlt)
      ((beq_iff_eq.1 hj).trans ht.symm)
    rw [heq]

/-- The loop of one execution. -/
private theorem respawned_loop (counts : Nat → InventoryType → Nat) (s : Server) (hsize : 0 < s.mapSize) :
    Respawned counts s.batch s ((List.range s.spawnBatch).foldl (spawnTurn counts) s) := by
  constructor
  case gains =>
    intro i t hi hfew
    rw [spawnTurns_tile counts _ s (batch_nodup hsize), if_neg (Int.not_lt.2 hfew), find_turn hsize hi]
  case full => exact fun t hfull => (spawnTurns_map counts _ s t).1 (Or.inl hfull)
  case rest => exact fun t hout => (spawnTurns_map counts _ s t).1 (Or.inr hout)

/-- A batch begins at the cursor, which is then the place to go on from. -/
private theorem laps_batch {n k : Nat} (hsize : s.mapSize = n) (hcursor : s.nextIdx = k % n) :
    laps n k ++ s.batch = laps n (k + s.spawnBatch) := by
  rw [laps_add, Server.batch]
  congr 1
  refine List.map_congr_left fun i _ => ?_
  rw [visited_eq, hsize, hcursor]

/-! ### The schedule -/

/-- The state of the cursor and of the schedule after the executions of `log`, on a map of `n` tiles. -/
structure Spawning (cfg : Config) (n : Nat) (log : List (Nat × List Nat)) (s : Server) : Prop where
  size : s.mapSize = n
  wf : s.eventBuffer.WF
  cursor : s.nextIdx = (visits log).length % n
  batches : ∀ e ∈ log, e.2.length = min (max ((n * 5 + 99) / 100) 1) 1000
  order : visits log = laps n (visits log).length
  queued : ∃ ev, s.eventBuffer.queued = [ev] ∧ ev.callback = some .spawnResources ∧ ev.arg = none ∧
    ev.execTime = u64 (lastSpawn log + cfg.spawnPeriod)

variable {n : Nat} {log : List (Nat × List Nat)}

theorem Spawning.congr (h : Spawning cfg n log s) (hs : s'.spawning = s.spawning) : Spawning cfg n log s' := by
  simp only [Server.spawning, Prod.mk.injEq] at hs
  obtain ⟨hX, hY, hidx, hbuffer⟩ := hs
  obtain ⟨hsize, hwf, hcursor, hbatches, horder, hqueued⟩ := h
  exact ⟨by rw [Server.mapSize, hX, hY]; exact hsize, by rwa [hbuffer], by rwa [hidx], hbatches, horder,
    by rwa [hbuffer]⟩

/-- The one event of the server's buffer lies under `head`, and nothing lies behind it. -/
theorem Spawning.head (h : Spawning cfg n log s) : 0 < s.eventBuffer.count ∧ s.eventBuffer.pop.queued = [] ∧
    (s.eventBuffer.events s.eventBuffer.head).callback = some .spawnResources ∧
    (s.eventBuffer.events s.eventBuffer.head).arg = none := by
  obtain ⟨ev, hqueue, hcb, harg, -⟩ := h.queued
  have hcount : s.eventBuffer.count = 1 := by rw [← EventBuffer.length_queued, hqueue]; rfl
  have hpos : 0 < s.eventBuffer.count := by omega
  have hpop := EventBuffer.queued_pop h.wf hpos
  rw [hqueue, List.cons.injEq] at hpop
  obtain ⟨rfl, hrest⟩ := hpop
  exact ⟨hpos, hrest.symm, hcb, harg⟩

/-- The schedule after the first event is taken out: the next execution, in the slot that is next. -/
private theorem Spawning.rescheduled (h : Spawning cfg n log s) (ev : Event) (harg : ev.arg = none) :
    ∃ b, timeApiScheduleClientEvent s.now s.eventBuffer.pop cfg.spawnPeriod (some .spawnResources) ev.data ev.arg
        ev.origin = some b ∧ b.WF ∧
      b.queued = [⟨u64 (s.now + cfg.spawnPeriod), some .spawnResources, ev.data, none, ev.origin⟩] ∧
      b.events s.eventBuffer.head = s.eventBuffer.events s.eventBuffer.head := by
  obtain ⟨hpos, hempty, -, -⟩ := h.head
  have hzero : s.eventBuffer.pop.count = 0 := by rw [← EventBuffer.length_queued, hempty]; rfl
  cases hsch : timeApiScheduleClientEvent s.now s.eventBuffer.pop cfg.spawnPeriod (some .spawnResources) ev.data
      ev.arg ev.origin with
  | none =>
    rw [schedule_eq_none_iff, hzero] at hsch
    exact absurd hsch (by decide)
  | some b =>
    obtain ⟨-, hwf, -, hqueued⟩ := schedule_spec (EventBuffer.pop_wf h.wf hpos) hsch
    refine ⟨b, rfl, hwf, ?_, ?_⟩
    · rw [hqueued, hempty, scheduledEvent, hzero, harg]
      rfl
    · unfold timeApiScheduleClientEvent at hsch
      split at hsch
      · cases hsch
      · cases hsch
        refine Function.update_of_ne ?_ _ _
        -- the event just taken out lies in the slot before `tail`
        have hcount : s.eventBuffer.count = 1 := by
          change s.eventBuffer.count - 1 = 0 at hzero
          omega
        have htail := h.wf.tail
        have hhead := h.wf.head
        have h10 : maxEvents = 10 := rfl
        rw [hcount, h10] at htail
        rw [h10] at hhead
        change s.eventBuffer.head ≠ s.eventBuffer.tail
        omega

/-- The turn of the server's buffer: nothing is due, or `m_game_spawn_resources` runs. -/
private theorem Spawning.processServer_cases (h : Spawning cfg n log s) (hstep : processServer cfg chance s = some s') :
    (s.spawnDue = false ∧ s' = s) ∨ (s.spawnDue = true ∧
      s' = gameSpawnResources cfg chance.counts { s with eventBuffer := s.eventBuffer.pop }
        (s.eventBuffer.events s.eventBuffer.head)) := by
  obtain ⟨hpos, -, hcb, harg⟩ := h.head
  rcases process_cases hstep with ⟨rfl, hnot⟩ | ⟨-, hdue, s₂, hcall, hend⟩
  · refine Or.inl ⟨?_, rfl⟩
    rw [Bool.eq_false_iff]
    intro hdue
    simp only [Server.spawnDue, Bool.and_eq_true, decide_eq_true_eq] at hdue
    exact hnot hdue.1
  · refine Or.inr ⟨by simp [Server.spawnDue, hpos, hdue, hcb], ?_⟩
    rw [hcb] at hcall
    simp only [Option.isSome_some, if_true, runCallback, hcb, Option.some.injEq] at hcall
    rcases hend with ⟨rfl, -⟩ | ⟨a, ha, -, -⟩
    · exact hcall.symm
    · -- the event has no argument to release
      obtain ⟨b, hb, -, -, hslot⟩ := h.rescheduled _ harg
      rw [← hcall, gameSpawnResources_rest] at ha
      dsimp only at ha
      rw [hb, Option.getD_some, hslot, harg] at ha
      cases ha

private theorem visits_append (log : List (Nat × List Nat)) (e : Nat × List Nat) :
    visits (log ++ [e]) = visits log ++ e.2 := by
  simp [visits]

private theorem length_batch (s : Server) : s.batch.length = s.spawnBatch := by
  simp [Server.batch]

/-- An execution moves the cursor over its batch and schedules the next one. -/
private theorem Spawning.execution (h : Spawning cfg n log s) (counts : Nat → InventoryType → Nat) :
    Spawning cfg n (log ++ [(s.now, s.batch)]) (gameSpawnResources cfg counts
      { s with eventBuffer := s.eventBuffer.pop } (s.eventBuffer.events s.eventBuffer.head)) := by
  obtain ⟨-, -, hcb, harg⟩ := h.head
  obtain ⟨b, hb, hwf, hqueued, -⟩ := h.rescheduled (s.eventBuffer.events s.eventBuffer.head) harg
  have hvisits : visits (log ++ [(s.now, s.batch)]) = laps n ((visits log).length + s.spawnBatch) := by
    rw [visits_append, h.order, length_laps]
    exact laps_batch h.size h.cursor
  have hlength : (visits (log ++ [(s.now, s.batch)])).length = (visits log).length + s.spawnBatch := by
    rw [hvisits, length_laps]
  rw [gameSpawnResources_rest]
  constructor
  case size => exact h.size
  case wf => simp only [hb, Option.getD_some, hwf]
  case cursor =>
    change (s.nextIdx + s.spawnBatch) % s.mapSize = _
    rw [hlength, h.cursor, h.size, Nat.mod_add_mod]
  case batches =>
    intro e he
    rcases List.mem_append.1 he with he | he
    · exact h.batches e he
    · rw [List.mem_singleton.1 he, length_batch, Server.spawnBatch, h.size]
  case order => rw [hlength, hvisits]
  case queued =>
    refine ⟨_, by simp only [hb, Option.getD_some]; exact hqueued, rfl, rfl, ?_⟩
    simp [lastSpawn]

theorem Spawning.step (h : Spawning cfg n log s) (hapart : PlayersApart s)
    (hstep : gameStep cfg s a = some s') : Spawning cfg n (log ++ s.spawns a) s' := by
  by_cases ha : ∃ chance, a = .playServer chance
  · obtain ⟨chance, rfl⟩ := ha
    rcases h.processServer_cases hstep with ⟨hdue, rfl⟩ | ⟨hdue, rfl⟩
    · rw [Server.spawns, hdue, if_neg Bool.false_ne_true, List.append_nil]
      exact h
    · rw [Server.spawns, if_pos hdue]
      exact h.execution chance.counts
  · have hnone : s.spawns a = [] := by
      cases a with
      | playServer chance => exact absurd ⟨chance, rfl⟩ ha
      | _ => rfl
    rw [hnone, List.append_nil]
    exact h.congr (gameStep_spawning hapart (fun chance h' => ha ⟨chance, h'⟩) hstep)

/-! ### Runs -/

theorem Spawning.run (h : Spawning cfg n log s) (hwf : BuffersWF s) (hapart : PlayersApart s) {as : List GameAction}
    (hrun : run (gameStep cfg) s as = some s') : Spawning cfg n (log ++ spawnsOf cfg s as) s' := by
  induction as generalizing s log with
  | nil =>
    cases hrun
    rw [spawnsOf, List.append_nil]
    exact h
  | cons a as ih =>
    simp only [Run.run, Option.bind_eq_some_iff] at hrun
    obtain ⟨s₁, hs₁, hrest⟩ := hrun
    obtain ⟨hwf₁, hapart₁⟩ := gameStep_invariant (fun _ _ _ he _ hI => he.playersApart hI) hwf hapart hs₁
    rw [spawnsOf, hs₁, ← List.append_assoc]
    exact ih (h.step hapart hs₁) hwf₁ hapart₁ hrest

private theorem spawning_init (hrespawn : cfg.respawnResources = true) (width height : Nat) (teams : List String)
    (nbClients : Nat) (counts : Nat → InventoryType → Nat) :
    Spawning cfg (width * height) [] (gameInit cfg width height teams nbClients counts) := by
  obtain ⟨b, hb⟩ := Option.isSome_iff_exists.1 (show (timeApiScheduleClientEvent 0 {} cfg.spawnPeriod
    (some .spawnResources) none none 0).isSome from rfl)
  obtain ⟨-, hwf, -, hqueued⟩ := schedule_spec EventBuffer.wf_zero hb
  have hbuffer : (gameInit cfg width height teams nbClients counts).eventBuffer = b := by
    simp only [gameInit, hrespawn, if_true, hb, Option.getD_some]
  constructor
  case size => rfl
  case wf => rwa [hbuffer]
  case cursor => exact (Nat.zero_mod _).symm
  case batches => exact fun e he => by cases he
  case order => rfl
  case queued => exact ⟨_, by rw [hbuffer, hqueued]; rfl, rfl, rfl, rfl⟩

theorem playersApart_init (width height : Nat) (teams : List String) (nbClients : Nat)
    (counts : Nat → InventoryType → Nat) : PlayersApart (gameInit cfg width height teams nbClients counts) :=
  fun _ _ h => by cases h

private theorem Spawning.spawningOK (h : Spawning cfg (width * height) log s) (hmap : 1 ≤ width * height)
    (hapart : PlayersApart s) : SpawningOK cfg width height log s := by
  constructor
  case batches => exact h.batches
  case order => exact h.order
  case fair =>
    intro t ht u hu
    rw [h.order]
    exact laps_fair ht hu _
  case queued =>
    obtain ⟨ev, hqueued, hcb, -, htime⟩ := h.queued
    exact ⟨ev, hqueued, hcb, htime⟩
  case effect =>
    intro chance s' hstep
    rcases h.processServer_cases hstep with ⟨hidle, rfl⟩ | ⟨hdue, rfl⟩
    · exact ⟨fun i t hi _ => by simp [Server.spawns, hidle, visits] at hi, fun _ _ => rfl, fun _ _ => rfl⟩
    · have hloop := respawned_loop chance.counts { s with eventBuffer := s.eventBuffer.pop }
        (show 0 < s.mapSize by rw [h.size]; exact hmap)
      have hvisits : visits (s.spawns (.playServer chance)) = s.batch := by
        simp [Server.spawns, hdue, visits]
      rw [hvisits, gameSpawnResources_rest]
      exact ⟨hloop.gains, hloop.full, hloop.rest⟩
  case grows =>
    intro chance s' hstep t
    rcases h.processServer_cases hstep with ⟨-, rfl⟩ | ⟨hdue, rfl⟩
    · exact ⟨fun _ => rfl, fun _ => Int.le_refl _⟩
    · have hvisits : visits (s.spawns (.playServer chance)) = s.batch := by
        simp [Server.spawns, hdue, visits]
      rw [hvisits, gameSpawnResources_rest]
      exact spawnTurns_map chance.counts (List.range s.spawnBatch) { s with eventBuffer := s.eventBuffer.pop } t
  case apart =>
    intro c cl hcl ev hev
    obtain ⟨i, -, rfl⟩ := List.mem_map.1 hev
    exact hapart c cl hcl _
  case ranges =>
    intro hrange
    have hcursor : s.nextIdx < width * height := by rw [h.cursor]; exact Nat.mod_lt _ hmap
    have hbatch : s.spawnBatch ≤ width * height := by
      rw [Server.spawnBatch, h.size]
      omega
    omega

/-- In every run with respawning, after any number of executions of `m_game_spawn_resources`, the tiles have been
visited lap after lap, an execution adds what it draws to the tiles it visits, leaves full tiles alone and takes
nothing away, and exactly the next execution is queued, one period after the last. -/
theorem spawning_in_laps (cfg : Config) (hrespawn : cfg.respawnResources = true) {width height : Nat}
    (hmap : 1 ≤ width * height) (teams : List String) (nbClients : Nat) (counts : Nat → InventoryType → Nat)
    (as : List GameAction) {s : Server}
    (h : run (gameStep cfg) (gameInit cfg width height teams nbClients counts) as = some s) :
    SpawningOK cfg width height (spawnsOf cfg (gameInit cfg width height teams nbClients counts) as) s := by
  have hrun := (spawning_init hrespawn width height teams nbClients counts).run (buffersWF_init _ _ _)
    (playersApart_init _ _ _ _ _) h
  exact hrun.spawningOK hmap (game_invariant (fun _ _ _ he _ hI => he.playersApart hI) (buffersWF_init _ _ _)
    (playersApart_init _ _ _ _ _) h).2

/-- Three executions on a map of two tiles, the second one late. -/
def lateSpawning : List GameAction :=
  [.tick 100, .playServer {}, .tick 350, .playServer {}, .playServer {}, .tick 450, .playServer {}]

theorem spawning_in_laps_late :
    ∃ s, run (gameStep shippedConfig) (gameInit shippedConfig 2 1 ["red"] 1 fun _ _ => 0) lateSpawning = some s ∧
      SpawningOK shippedConfig 2 1 [(100, [0]), (350, [1]), (450, [0])] s := by
  obtain ⟨s, hs⟩ := Option.isSome_iff_exists.1 (show (run (gameStep shippedConfig)
    (gameInit shippedConfig 2 1 ["red"] 1 fun _ _ => 0) lateSpawning).isSome by decide +kernel)
  have hlog : spawnsOf shippedConfig (gameInit shippedConfig 2 1 ["red"] 1 fun _ _ => 0) lateSpawning =
      [(100, [0]), (350, [1]), (450, [0])] := by decide +kernel
  refine ⟨s, hs, ?_⟩
  rw [← hlog]
  exact spawning_in_laps shippedConfig rfl (by decide) _ _ _ _ hs

end Zappy

import Zappy.Commands
import Mathlib.Tactic.Ring
import Mathlib.Tactic.Tauto

/-!
# The lists of players on the tiles

`Tiles s placed L` says that `L t` is the list of players on tile `t`: a well-formed doubly linked list of exactly
the placed players whose `pos` is on that tile.  Unlinking, inserting at the head and moving a player keep it, and
change nothing but links, heads of lists and the position of the player that moves.
-/

namespace Zappy

open LinkedList

/-- `next_on_tile`, read from the heap. -/
def Server.nextOf (s : Server) (a : Addr) : Option Addr := (s.playerHeap a).bind Player.nextOnTile

/-- `prev_on_tile`, read from the heap. -/
def Server.prevOf (s : Server) (a : Addr) : Option Addr := (s.playerHeap a).bind Player.prevOnTile

/-- `pos`, read from the heap. -/
def Server.posOf (s : Server) (a : Addr) : Option Position := (s.playerHeap a).map Player.pos

/-- A position of the map. -/
def Server.OnMap (s : Server) (pos : Position) : Prop := pos.x < s.mapX ∧ pos.y < s.mapY

structure Tiles (s : Server) (placed : Addr → Prop) (L : Nat → List Addr) : Prop where
  list : ∀ t < s.mapX * s.mapY, IsList s.nextOf s.prevOf (s.map t).players (L t)
  mem : ∀ t < s.mapX * s.mapY, ∀ a, a ∈ L t ↔ placed a ∧ (s.posOf a).map s.mapIndex = some t
  onMap : ∀ a pos, placed a → s.posOf a = some pos → s.OnMap pos
  tilePos : ∀ t < s.mapX * s.mapY, (s.map t).pos = ⟨t % s.mapX, t / s.mapX⟩

/-- A player without its place: what moving players about keeps. -/
def Player.core (pl : Player) : Player := { pl with pos := ⟨0, 0⟩, nextOnTile := none, prevOnTile := none }

theorem Player.core_eq {r r' : Player} (h : r'.core = r.core) : r'.id = r.id ∧ r'.teamId = r.teamId ∧
    r'.level = r.level ∧ r'.dir = r.dir ∧ r'.inv = r.inv ∧ r'.dieTime = r.dieTime ∧ r'.startTime = r.startTime := by
  simpa only [Player.core, Player.mk.injEq, true_and, and_true] using h

/-- Only links, positions and heads of lists differ. -/
structure SameButPlaces (s s' : Server) : Prop where
  rest : s' = { s with map := s'.map, playerHeap := s'.playerHeap }
  core : ∀ q, (s'.playerHeap q).map Player.core = (s.playerHeap q).map Player.core
  items : ∀ t, (s'.map t).items = (s.map t).items
  tilePos : ∀ t, (s'.map t).pos = (s.map t).pos

theorem SameButPlaces.refl (s : Server) : SameButPlaces s s := ⟨rfl, fun _ => rfl, fun _ => rfl, fun _ => rfl⟩

theorem SameButPlaces.trans {s₁ s₂ s₃ : Server} (h : SameButPlaces s₁ s₂) (h' : SameButPlaces s₂ s₃) :
    SameButPlaces s₁ s₃ := by
  refine ⟨?_, fun q => (h'.core q).trans (h.core q), fun t => (h'.items t).trans (h.items t),
    fun t => (h'.tilePos t).trans (h.tilePos t)⟩
  calc s₃ = { s₂ with map := s₃.map, playerHeap := s₃.playerHeap } := h'.rest
    _ = _ := by rw [h.rest]

/-- The player found at an address afterwards was there before, with the same record but for its place. -/
theorem SameButPlaces.player {s s' : Server} (h : SameButPlaces s s') {q : Addr} {r' : Player}
    (hr : s'.playerHeap q = some r') : ∃ r, s.playerHeap q = some r ∧ r'.core = r.core := by
  have hq := h.core q
  rw [hr] at hq
  cases hs : s.playerHeap q with
  | none => rw [hs] at hq; cases hq
  | some r => rw [hs] at hq; exact ⟨r, rfl, Option.some.inj hq⟩

/-- The player found at an address before is still there, with the same record but for its place. -/
theorem SameButPlaces.player' {s s' : Server} (h : SameButPlaces s s') {q : Addr} {r : Player}
    (hr : s.playerHeap q = some r) : ∃ r', s'.playerHeap q = some r' ∧ r'.core = r.core := by
  have hq := h.core q
  rw [hr] at hq
  cases hs : s'.playerHeap q with
  | none => rw [hs] at hq; cases hq
  | some r' => rw [hs] at hq; exact ⟨r', rfl, Option.some.inj hq⟩

theorem SameButPlaces.isSome {s s' : Server} (h : SameButPlaces s s') {q : Addr} (hq : (s.playerHeap q).isSome) :
    (s'.playerHeap q).isSome := by
  obtain ⟨r, hr⟩ := Option.isSome_iff_exists.1 hq
  obtain ⟨r', hr', -⟩ := h.player' hr
  rw [hr']
  rfl

theorem modPlayer_heap (s : Server) (p q : Addr) (f : Player → Player) :
    (s.modPlayer p f).playerHeap q = if q = p then (s.playerHeap q).map f else s.playerHeap q := by
  by_cases h : q = p
  · subst h; simp [Server.modPlayer]
  · simp [Server.modPlayer, h]

private theorem modPlayer_same {s : Server} {p : Addr} {f : Player → Player} (hf : ∀ r, (f r).core = r.core) :
    SameButPlaces s (s.modPlayer p f) := by
  refine ⟨rfl, fun q => ?_, fun _ => rfl, fun _ => rfl⟩
  rw [modPlayer_heap]
  split
  · cases s.playerHeap q with
    | none => rfl
    | some r => simp [hf]
  · rfl

private theorem setNext_same (s : Server) (q : Addr) (n : Option Addr) : SameButPlaces s (s.setNext q n) :=
  modPlayer_same fun _ => rfl

private theorem setPrev_same (s : Server) (q : Addr) (v : Option Addr) : SameButPlaces s (s.setPrev q v) :=
  modPlayer_same fun _ => rfl

private theorem setPos_same (s : Server) (q : Addr) (pos : Position) : SameButPlaces s (s.setPos q pos) :=
  modPlayer_same fun _ => rfl

private theorem setHead_same (s : Server) (t : Nat) (n : Option Addr) : SameButPlaces s (s.setHead t n) := by
  refine ⟨rfl, fun _ => rfl, fun u => ?_, fun u => ?_⟩ <;>
    · simp only [Server.setHead, Server.modTile, Function.update_apply]
      split
      · subst_vars; rfl
      · rfl

private theorem linkNext_same (s : Server) (t : Nat) (v n : Option Addr) : SameButPlaces s (s.linkNext t v n) := by
  cases v with
  | some q => exact setNext_same s q n
  | none => exact setHead_same s t n

private theorem linkPrev_same (s : Server) (n v : Option Addr) : SameButPlaces s (s.linkPrev n v) := by
  cases n with
  | some q => exact setPrev_same s q v
  | none => exact .refl s

theorem addPlayer_same (s : Server) (t : Nat) (p : Addr) : SameButPlaces s (gameAddPlayerToTile s t p) :=
  (setNext_same ..).trans ((setPrev_same ..).trans ((linkPrev_same ..).trans
    ((setHead_same ..).trans (setPos_same ..))))

theorem removePlayer_same (s : Server) (p : Addr) : SameButPlaces s (gameRemovePlayerFromTile s p) := by
  unfold gameRemovePlayerFromTile
  split
  · exact .refl s
  · exact (linkNext_same ..).trans ((linkPrev_same ..).trans ((setNext_same ..).trans (setPrev_same ..)))

theorem movePlayer_same (s : Server) (p : Addr) (pos : Position) : SameButPlaces s (gameMovePlayer s p pos) :=
  (removePlayer_same s p).trans ((setPos_same ..).trans (addPlayer_same ..))

/-! ### What the writes do to the links -/

section Links

variable (s : Server)

private theorem linkNext_nextOf {t : Nat} {v n : Option Addr} (hv : ∀ q, v = some q → (s.playerHeap q).isSome)
    (b : Addr) : (s.linkNext t v n).nextOf b = if v = some b then n else s.nextOf b := by
  cases v with
  | none => rfl
  | some q =>
    obtain ⟨r, hr⟩ := Option.isSome_iff_exists.1 (hv q rfl)
    simp only [Server.nextOf, Server.linkNext, Server.setNext, modPlayer_heap, Option.some.injEq]
    by_cases h : b = q
    · subst h; simp [hr]
    · simp [h, Ne.symm h]

@[simp] theorem linkNext_prevOf (t : Nat) (v n : Option Addr) : (s.linkNext t v n).prevOf = s.prevOf := by
  cases v with
  | none => rfl
  | some q =>
    funext b
    simp only [Server.prevOf, Server.linkNext, Server.setNext, modPlayer_heap]
    split
    · cases s.playerHeap b <;> rfl
    · rfl

private theorem linkNext_players (t u : Nat) (v n : Option Addr) :
    ((s.linkNext t v n).map u).players = if v = none ∧ u = t then n else (s.map u).players := by
  cases v with
  | none =>
    simp only [Server.linkNext, Server.setHead, Server.modTile, Function.update_apply, true_and]
    split <;> rfl
  | some q => simp [Server.linkNext, Server.setNext, Server.modPlayer]

private theorem linkPrev_prevOf {n v : Option Addr} (hn : ∀ q, n = some q → (s.playerHeap q).isSome) (b : Addr) :
    (s.linkPrev n v).prevOf b = if n = some b then v else s.prevOf b := by
  cases n with
  | none => simp [Server.linkPrev]
  | some q =>
    obtain ⟨r, hr⟩ := Option.isSome_iff_exists.1 (hn q rfl)
    simp only [Server.prevOf, Server.linkPrev, Server.setPrev, modPlayer_heap, Option.some.injEq]
    by_cases h : b = q
    · subst h; simp [hr]
    · simp [h, Ne.symm h]

@[simp] theorem linkPrev_nextOf (n v : Option Addr) : (s.linkPrev n v).nextOf = s.nextOf := by
  cases n with
  | none => rfl
  | some q =>
    funext b
    simp only [Server.nextOf, Server.linkPrev, Server.setPrev, modPlayer_heap]
    split
    · cases s.playerHeap b <;> rfl
    · rfl

@[simp] theorem linkPrev_map (n v : Option Addr) : (s.linkPrev n v).map = s.map := by
  cases n <;> rfl

private theorem setNext_nextOf_ne {q b : Addr} (n : Option Addr) (h : b ≠ q) :
    (s.setNext q n).nextOf b = s.nextOf b := by
  simp [Server.nextOf, Server.setNext, modPlayer_heap, h]

private theorem setPrev_prevOf_ne {q b : Addr} (v : Option Addr) (h : b ≠ q) :
    (s.setPrev q v).prevOf b = s.prevOf b := by
  simp [Server.prevOf, Server.setPrev, modPlayer_heap, h]

@[simp] theorem setNext_prevOf (q : Addr) (n : Option Addr) : (s.setNext q n).prevOf = s.prevOf :=
  linkNext_prevOf s 0 (some q) n

@[simp] theorem setPrev_nextOf (q : Addr) (v : Option Addr) : (s.setPrev q v).nextOf = s.nextOf :=
  linkPrev_nextOf s (some q) v

@[simp] theorem setPos_nextOf (q : Addr) (pos : Position) : (s.setPos q pos).nextOf = s.nextOf := by
  funext b
  simp only [Server.nextOf, Server.setPos, modPlayer_heap]
  split
  · cases s.playerHeap b <;> rfl
  · rfl

@[simp] theorem setPos_prevOf (q : Addr) (pos : Position) : (s.setPos q pos).prevOf = s.prevOf := by
  funext b
  simp only [Server.prevOf, Server.setPos, modPlayer_heap]
  split
  · cases s.playerHeap b <;> rfl
  · rfl

theorem posOf_modPlayer {p : Addr} {f : Player → Player} (hf : ∀ r, (f r).pos = r.pos) :
    (s.modPlayer p f).posOf = s.posOf := by
  funext b
  simp only [Server.posOf, modPlayer_heap]
  split
  · cases s.playerHeap b <;> simp [hf]
  · rfl

@[simp] theorem setNext_posOf (q : Addr) (n : Option Addr) : (s.setNext q n).posOf = s.posOf :=
  posOf_modPlayer s fun _ => rfl

@[simp] theorem setPrev_posOf (q : Addr) (v : Option Addr) : (s.setPrev q v).posOf = s.posOf :=
  posOf_modPlayer s fun _ => rfl

@[simp] theorem linkNext_posOf (t : Nat) (v n : Option Addr) : (s.linkNext t v n).posOf = s.posOf := by
  cases v with
  | none => rfl
  | some q => exact setNext_posOf s q n

@[simp] theorem linkPrev_posOf (n v : Option Addr) : (s.linkPrev n v).posOf = s.posOf := by
  cases n with
  | none => rfl
  | some q => exact setPrev_posOf s q v

private theorem setPos_posOf (q b : Addr) (pos : Position) :
    (s.setPos q pos).posOf b = if b = q then (s.posOf b).map fun _ => pos else s.posOf b := by
  simp only [Server.posOf, Server.setPos, modPlayer_heap]
  split
  · cases s.playerHeap b <;> rfl
  · rfl

theorem addPlayer_posOf_ne {t : Nat} {p b : Addr} (h : b ≠ p) : (gameAddPlayerToTile s t p).posOf b = s.posOf b := by
  simp only [gameAddPlayerToTile, setPos_posOf, if_neg h]
  exact congrFun ((linkPrev_posOf _ _ _).trans ((setPrev_posOf _ _ _).trans (setNext_posOf _ _ _))) b

/-! The list operations, field by field. -/

private theorem addPlayer_nextOf (t : Nat) {p : Addr} (hp : (s.playerHeap p).isSome) (b : Addr) :
    (gameAddPlayerToTile s t p).nextOf b = if b = p then (s.map t).players else s.nextOf b := by
  have hlink : (gameAddPlayerToTile s t p).nextOf b = (s.setNext p (s.map t).players).nextOf b := by
    simp only [gameAddPlayerToTile, setPos_nextOf]
    exact congrFun ((linkPrev_nextOf _ _ _).trans (setPrev_nextOf _ _ _)) b
  rw [hlink, show s.setNext p (s.map t).players = s.linkNext 0 (some p) (s.map t).players from rfl,
    linkNext_nextOf s (by rintro q ⟨⟩; exact hp)]
  simp only [Option.some.injEq, eq_comm]

private theorem addPlayer_prevOf (t : Nat) {p : Addr} (hp : (s.playerHeap p).isSome)
    (hhead : ∀ q, (s.map t).players = some q → (s.playerHeap q).isSome) (b : Addr) :
    (gameAddPlayerToTile s t p).prevOf b =
      if (s.map t).players = some b then some p else if b = p then none else s.prevOf b := by
  have hnext := setNext_same s p (s.map t).players
  have hprev := setPrev_same (s.setNext p (s.map t).players) p none
  have hhead' : ∀ q, (s.map t).players = some q →
      (((s.setNext p (s.map t).players).setPrev p none).playerHeap q).isSome :=
    fun q hq => (hnext.trans hprev).isSome (hhead q hq)
  have hlink : (gameAddPlayerToTile s t p).prevOf b =
      (((s.setNext p (s.map t).players).setPrev p none).linkPrev (s.map t).players (some p)).prevOf b := by
    simp only [gameAddPlayerToTile, setPos_prevOf]
    rfl
  rw [hlink, linkPrev_prevOf _ hhead', show (s.setNext p (s.map t).players).setPrev p none =
    (s.setNext p (s.map t).players).linkPrev (some p) none from rfl,
    linkPrev_prevOf _ (by rintro q ⟨⟩; exact hnext.isSome hp), setNext_prevOf]
  simp only [Option.some.injEq, eq_comm]

private theorem addPlayer_players (t u : Nat) (p : Addr) :
    ((gameAddPlayerToTile s t p).map u).players = if u = t then some p else (s.map u).players := by
  have hlink : (gameAddPlayerToTile s t p).map u =
      ((((s.setNext p (s.map t).players).setPrev p none).linkPrev (s.map t).players (some p)).setHead t
        (some p)).map u := rfl
  rw [hlink]
  simp only [Server.setHead, Server.modTile, linkPrev_map, Function.update_apply]
  split
  · rfl
  · rfl

theorem addPlayer_posOf (t : Nat) {p : Addr} (hp : (s.playerHeap p).isSome) (b : Addr) :
    (gameAddPlayerToTile s t p).posOf b = if b = p then some (s.map t).pos else s.posOf b := by
  by_cases hb : b = p
  · subst hb
    obtain ⟨r, hr⟩ := Option.isSome_iff_exists.1 hp
    have hpos : ((((s.setNext b (s.map t).players).setPrev b none).linkPrev (s.map t).players (some b)).setHead t
        (some b)).posOf b = some r.pos := by
      have hlink := (linkPrev_posOf ((s.setNext b (s.map t).players).setPrev b none) (s.map t).players (some b)).trans
        ((setPrev_posOf _ b none).trans (setNext_posOf s b (s.map t).players))
      exact (congrFun hlink b).trans (by simp [Server.posOf, hr])
    have htile := (((setNext_same s b (s.map t).players).trans (setPrev_same _ b none)).trans
      (linkPrev_same _ (s.map t).players (some b))).trans (setHead_same _ t (some b)) |>.tilePos t
    simp only [gameAddPlayerToTile, setPos_posOf, htile, hpos, if_true, Option.map_some]
  · rw [if_neg hb, addPlayer_posOf_ne s hb]

private theorem removePlayer_nextOf {p : Addr} {pl : Player} (hpl : s.playerHeap p = some pl)
    (hprev : ∀ q, pl.prevOnTile = some q → (s.playerHeap q).isSome) {b : Addr} (hb : b ≠ p) :
    (gameRemovePlayerFromTile s p).nextOf b = if s.prevOf p = some b then s.nextOf p else s.nextOf b := by
  have hnextp : s.nextOf p = pl.nextOnTile := by simp [Server.nextOf, hpl]
  have hprevp : s.prevOf p = pl.prevOnTile := by simp [Server.prevOf, hpl]
  simp only [gameRemovePlayerFromTile, hpl, setPrev_nextOf, setNext_nextOf_ne _ _ hb, linkPrev_nextOf, hprevp,
    hnextp]
  exact linkNext_nextOf s hprev b

private theorem removePlayer_prevOf {p : Addr} {pl : Player} (hpl : s.playerHeap p = some pl)
    (hnext : ∀ q, pl.nextOnTile = some q → (s.playerHeap q).isSome) {b : Addr} (hb : b ≠ p) :
    (gameRemovePlayerFromTile s p).prevOf b = if s.nextOf p = some b then s.prevOf p else s.prevOf b := by
  have hnextp : s.nextOf p = pl.nextOnTile := by simp [Server.nextOf, hpl]
  have hprevp : s.prevOf p = pl.prevOnTile := by simp [Server.prevOf, hpl]
  have hnext' : ∀ q, pl.nextOnTile = some q →
      ((s.linkNext (s.mapIndex pl.pos) pl.prevOnTile pl.nextOnTile).playerHeap q).isSome :=
    fun q hq => (linkNext_same s _ _ _).isSome (hnext q hq)
  simp only [gameRemovePlayerFromTile, hpl, setPrev_prevOf_ne _ _ hb, setNext_prevOf,
    linkPrev_prevOf _ hnext', linkNext_prevOf, hprevp, hnextp]

private theorem removePlayer_players {p : Addr} {pl : Player} (hpl : s.playerHeap p = some pl) (u : Nat) :
    ((gameRemovePlayerFromTile s p).map u).players =
      if s.prevOf p = none ∧ u = s.mapIndex pl.pos then s.nextOf p else (s.map u).players := by
  have hnextp : s.nextOf p = pl.nextOnTile := by simp [Server.nextOf, hpl]
  have hprevp : s.prevOf p = pl.prevOnTile := by simp [Server.prevOf, hpl]
  have hlink : (gameRemovePlayerFromTile s p).map u =
      (s.linkNext (s.mapIndex pl.pos) pl.prevOnTile pl.nextOnTile).map u := by
    simp [gameRemovePlayerFromTile, hpl, Server.setPrev, Server.setNext, Server.modPlayer]
  rw [hlink, linkNext_players, hprevp, hnextp]

@[simp] theorem removePlayer_posOf (p : Addr) : (gameRemovePlayerFromTile s p).posOf = s.posOf := by
  unfold gameRemovePlayerFromTile
  split
  · rfl
  · simp

/-- The other players stay where they are. -/
theorem movePlayer_posOf_ne {p b : Addr} (pos : Position) (h : b ≠ p) :
    (gameMovePlayer s p pos).posOf b = s.posOf b := by
  rw [gameMovePlayer, addPlayer_posOf_ne _ h, setPos_posOf, if_neg h, removePlayer_posOf]

end Links

/-! ### The operations keep the lists -/

theorem posOf_isSome {s : Server} {a : Addr} : (s.posOf a).isSome ↔ (s.playerHeap a).isSome := by
  simp [Server.posOf]

theorem mapIndex_lt {s : Server} {pos : Position} (h : s.OnMap pos) : s.mapIndex pos < s.mapX * s.mapY := by
  obtain ⟨hx, hy⟩ := h
  calc s.mapIndex pos < pos.y * s.mapX + s.mapX := by unfold Server.mapIndex; omega
    _ = s.mapX * (pos.y + 1) := by ring
    _ ≤ s.mapX * s.mapY := Nat.mul_le_mul_left _ hy

/-- The coordinates of a tile, from its index. -/
private theorem onMap_of_lt {s : Server} {t : Nat} (h : t < s.mapX * s.mapY) : s.OnMap ⟨t % s.mapX, t / s.mapX⟩ := by
  have hX : 0 < s.mapX := Nat.pos_of_ne_zero fun h0 => by simp [h0] at h
  exact ⟨Nat.mod_lt _ hX, Nat.div_lt_of_lt_mul h⟩

theorem mapIndex_coords (s : Server) (t : Nat) : s.mapIndex ⟨t % s.mapX, t / s.mapX⟩ = t := by
  simp only [Server.mapIndex]
  exact Nat.div_add_mod' t s.mapX

variable {s s' : Server} {placed placed' : Addr → Prop} {L : Nat → List Addr}

/-- The lists depend on the links and positions of the placed players and on the heads only. -/
theorem Tiles.congr (h : Tiles s placed L) (hX : s'.mapX = s.mapX) (hY : s'.mapY = s.mapY)
    (hnext : ∀ a, placed a → s'.nextOf a = s.nextOf a) (hprev : ∀ a, placed a → s'.prevOf a = s.prevOf a)
    (hpos : ∀ a, placed a → s'.posOf a = s.posOf a) (hhead : ∀ t, (s'.map t).players = (s.map t).players)
    (htile : ∀ t, (s'.map t).pos = (s.map t).pos) (hplaced : ∀ a, placed' a ↔ placed a) : Tiles s' placed' L := by
  have hidx : s'.mapIndex = s.mapIndex := by funext pos; simp only [Server.mapIndex, hX]
  refine ⟨fun t ht => ?_, fun t ht a => ?_, fun a pos ha hp => ?_, fun t ht => ?_⟩
  · rw [hX, hY] at ht
    rw [hhead]
    exact (h.list t ht).congr (fun a ha => hnext a ((h.mem t ht a).1 ha).1)
      fun a ha => hprev a ((h.mem t ht a).1 ha).1
  · rw [hX, hY] at ht
    rw [hplaced, h.mem t ht a]
    exact and_congr_right fun ha => by rw [hpos a ha, hidx]
  · rw [hplaced] at ha
    rw [hpos a ha] at hp
    simpa only [Server.OnMap, hX, hY] using h.onMap a pos ha hp
  · rw [hX, hY] at ht
    rw [htile, hX]
    exact h.tilePos t ht

/-- A placed player is in the list of the tile its `pos` names. -/
theorem Tiles.mem_own (h : Tiles s placed L) {p : Addr} {pl : Player} (hp : placed p)
    (hpl : s.playerHeap p = some pl) : s.mapIndex pl.pos < s.mapX * s.mapY ∧ p ∈ L (s.mapIndex pl.pos) := by
  have hpos : s.posOf p = some pl.pos := by simp [Server.posOf, hpl]
  have hlt := mapIndex_lt (h.onMap p pl.pos hp hpos)
  exact ⟨hlt, (h.mem _ hlt p).2 ⟨hp, by rw [hpos]; rfl⟩⟩

/-- No player is in the lists of two tiles. -/
theorem Tiles.unique (h : Tiles s placed L) {t u : Nat} (ht : t < s.mapX * s.mapY) (hu : u < s.mapX * s.mapY)
    {a : Addr} (hat : a ∈ L t) (hau : a ∈ L u) : t = u :=
  Option.some.inj ((((h.mem t ht a).1 hat).2).symm.trans ((h.mem u hu a).1 hau).2)

theorem Tiles.live (h : Tiles s placed L) {t : Nat} (ht : t < s.mapX * s.mapY) {a : Addr} (hat : a ∈ L t) :
    (s.playerHeap a).isSome := by
  rw [← posOf_isSome]
  have := ((h.mem t ht a).1 hat).2
  cases hp : s.posOf a with
  | none => rw [hp] at this; cases this
  | some pos => rfl

/-- The neighbours of a player are in the list of its tile. -/
theorem Tiles.next_mem (h : Tiles s placed L) {t : Nat} (ht : t < s.mapX * s.mapY) {a b : Addr} (ha : a ∈ L t)
    (hab : s.nextOf a = some b) : b ∈ L t :=
  (h.list t ht).seg.next_mem ha hab

theorem Tiles.prev_mem (h : Tiles s placed L) {t : Nat} (ht : t < s.mapX * s.mapY) {a b : Addr} (ha : a ∈ L t)
    (hab : s.prevOf a = some b) : b ∈ L t := by
  rcases (h.list t ht).seg.prev_mem ha with h' | ⟨c, hc, h'⟩
  · rw [hab] at h'; cases h'
  · obtain rfl : b = c := Option.some.inj (hab.symm.trans h')
    exact hc

/-- Unlinking a player. -/
theorem Tiles.remove (h : Tiles s placed L) {p : Addr} {pl : Player} (hp : placed p)
    (hpl : s.playerHeap p = some pl) :
    Tiles (gameRemovePlayerFromTile s p) (fun a => placed a ∧ a ≠ p)
      (Function.update L (s.mapIndex pl.pos) ((L (s.mapIndex pl.pos)).erase p)) := by
  obtain ⟨ht, hpt⟩ := h.mem_own hp hpl
  have hsame := removePlayer_same s p
  have hX : (gameRemovePlayerFromTile s p).mapX = s.mapX := by rw [hsame.rest]
  have hY : (gameRemovePlayerFromTile s p).mapY = s.mapY := by rw [hsame.rest]
  have hidx : (gameRemovePlayerFromTile s p).mapIndex = s.mapIndex := by
    funext pos; simp only [Server.mapIndex, hX]
  have hpos : (gameRemovePlayerFromTile s p).posOf = s.posOf := removePlayer_posOf s p
  have hhead := fun u => removePlayer_players s hpl u
  -- the neighbours are in the same list, so they are allocated
  have hn := fun b (hb : b ≠ p) => removePlayer_nextOf s hpl
    (fun q hq => h.live ht (h.prev_mem ht hpt (by simpa [Server.prevOf, hpl] using hq))) hb
  have hv := fun b (hb : b ≠ p) => removePlayer_prevOf s hpl
    (fun q hq => h.live ht (h.next_mem ht hpt (by simpa [Server.nextOf, hpl] using hq))) hb
  generalize htdef : s.mapIndex pl.pos = t at ht hpt hhead ⊢
  refine ⟨fun u hu => ?_, fun u hu a => ?_, fun a pos ha hap => ?_, fun u hu => ?_⟩
  · rw [hX, hY] at hu
    by_cases hut : u = t
    · subst hut
      rw [Function.update_self, hhead u]
      simpa only [and_true] using (h.list u hu).unlink hpt hn hv
    · rw [Function.update_of_ne hut, hhead u, if_neg (fun h' => hut h'.2)]
      have hother : ∀ a ∈ L u, ∀ b ∈ L t, b ≠ a := fun a ha b hb he => hut (h.unique hu ht ha (he ▸ hb))
      refine (h.list u hu).congr (fun a ha => ?_) (fun a ha => ?_)
      · rw [hn a (hother a ha p hpt).symm, if_neg fun he => hother a ha a (h.prev_mem ht hpt he) rfl]
      · rw [hv a (hother a ha p hpt).symm, if_neg fun he => hother a ha a (h.next_mem ht hpt he) rfl]
  · rw [hX, hY] at hu
    rw [hpos, hidx]
    by_cases hut : u = t
    · subst hut
      rw [Function.update_self, (h.list u hu).nodup.mem_erase_iff, h.mem u hu a]
      tauto
    · rw [Function.update_of_ne hut, h.mem u hu a]
      have hpu : a = p → ¬ (s.posOf a).map s.mapIndex = some u := by
        rintro rfl he
        exact hut (h.unique hu ht ((h.mem u hu a).2 ⟨hp, he⟩) hpt)
      tauto
  · rw [hpos] at hap
    simpa only [Server.OnMap, hX, hY] using h.onMap a pos ha.1 hap
  · rw [hX, hY] at hu
    rw [hsame.tilePos, hX]
    exact h.tilePos u hu

/-- Inserting a player that no list holds at the head of a list. -/
theorem Tiles.add (h : Tiles s placed L) {p : Addr} (hp : ¬ placed p) (hpl : (s.playerHeap p).isSome) {t : Nat}
    (ht : t < s.mapX * s.mapY) :
    Tiles (gameAddPlayerToTile s t p) (fun a => placed a ∨ a = p) (Function.update L t (p :: L t)) := by
  have hpu : ∀ u < s.mapX * s.mapY, p ∉ L u := fun u hu hm => hp ((h.mem u hu p).1 hm).1
  have hne : ∀ u < s.mapX * s.mapY, ∀ b ∈ L u, b ≠ p := fun u hu b hb he => hpu u hu (he ▸ hb)
  have hsame := addPlayer_same s t p
  have hX : (gameAddPlayerToTile s t p).mapX = s.mapX := by rw [hsame.rest]
  have hY : (gameAddPlayerToTile s t p).mapY = s.mapY := by rw [hsame.rest]
  have hidx : (gameAddPlayerToTile s t p).mapIndex = s.mapIndex := by funext pos; simp only [Server.mapIndex, hX]
  have hheadp : (s.map t).players ≠ some p := fun he => hpu t ht ((h.list t ht).head_mem he)
  have hn := addPlayer_nextOf s t hpl
  have hv := addPlayer_prevOf s t hpl fun q hq => h.live ht ((h.list t ht).head_mem hq)
  have hhead := fun u => addPlayer_players s t u p
  have hpos := addPlayer_posOf s t hpl
  rw [h.tilePos t ht] at hpos
  refine ⟨fun u hu => ?_, fun u hu a => ?_, fun a pos ha hap => ?_, fun u hu => ?_⟩
  · rw [hX, hY] at hu
    by_cases hut : u = t
    · subst hut
      rw [Function.update_self, hhead u, if_pos rfl]
      refine (h.list u hu).cons (hpu u hu) ((hn p).trans (if_pos rfl)) ?_ (fun b hb => ?_) (fun b hb => ?_)
      · rw [hv, if_neg hheadp, if_pos rfl]
      · rw [hn, if_neg (hne u hu b hb)]
      · rw [hv, if_neg (hne u hu b hb)]
    · rw [Function.update_of_ne hut, hhead u, if_neg hut]
      refine (h.list u hu).congr (fun a ha => ?_) (fun a ha => ?_)
      · rw [hn, if_neg (hne u hu a ha)]
      · rw [hv, if_neg fun he => hut (h.unique hu ht ha ((h.list t ht).head_mem he)), if_neg (hne u hu a ha)]
  · rw [hX, hY] at hu
    rw [hidx, hpos]
    by_cases hap : a = p
    · subst hap
      rw [if_pos rfl, Option.map_some, mapIndex_coords]
      by_cases hut : u = t
      · subst hut; simp
      · rw [Function.update_of_ne hut]
        exact ⟨fun hm => absurd hm (hpu u hu), fun hm => absurd (Option.some.inj hm.2).symm hut⟩
    · rw [if_neg hap]
      by_cases hut : u = t
      · subst hut
        rw [Function.update_self, List.mem_cons, h.mem u hu a]
        tauto
      · rw [Function.update_of_ne hut, h.mem u hu a]
        tauto
  · rw [hpos] at hap
    simp only [Server.OnMap, hX, hY]
    by_cases hp' : a = p
    · rw [if_pos hp'] at hap
      obtain rfl := Option.some.inj hap
      exact onMap_of_lt ht
    · rw [if_neg hp'] at hap
      exact h.onMap a pos (ha.resolve_right hp') hap
  · rw [hX, hY] at hu
    rw [hsame.tilePos, hX]
    exact h.tilePos u hu

/-- Moving a player to another tile, or to the head of the same list. -/
theorem Tiles.moved (h : Tiles s placed L) {p : Addr} {pl : Player} (hp : placed p)
    (hpl : s.playerHeap p = some pl) {pos : Position} (hpos : s.OnMap pos) :
    let L₁ := Function.update L (s.mapIndex pl.pos) ((L (s.mapIndex pl.pos)).erase p)
    Tiles (gameMovePlayer s p pos) placed (Function.update L₁ (s.mapIndex pos) (p :: L₁ (s.mapIndex pos))) := by
  have h₁ := h.remove hp hpl
  have hX : (gameRemovePlayerFromTile s p).mapX = s.mapX := by rw [(removePlayer_same s p).rest]
  have hY : (gameRemovePlayerFromTile s p).mapY = s.mapY := by rw [(removePlayer_same s p).rest]
  have h₂ : Tiles ((gameRemovePlayerFromTile s p).setPos p pos) (fun a => placed a ∧ a ≠ p)
      (Function.update L (s.mapIndex pl.pos) ((L (s.mapIndex pl.pos)).erase p)) := by
    have hother : ∀ a, a ≠ p → ((gameRemovePlayerFromTile s p).setPos p pos).posOf a =
        (gameRemovePlayerFromTile s p).posOf a := fun a ha => by rw [setPos_posOf, if_neg ha]
    refine ⟨fun t ht => ?_, fun t ht a => ?_, fun a q ha haq => ?_, fun t ht => h₁.tilePos t ht⟩
    · rw [setPos_nextOf, setPos_prevOf]
      exact h₁.list t ht
    · rw [h₁.mem t ht a]
      by_cases ha : a = p
      · simp [ha]
      · rw [hother a ha]; rfl
    · rw [hother a ha.2] at haq
      exact h₁.onMap a q ha haq
  obtain ⟨r, hr, -⟩ := ((removePlayer_same s p).trans (setPos_same _ p pos)).player' hpl
  have hpos' : ((gameRemovePlayerFromTile s p).setPos p pos).OnMap pos := by
    simpa only [Server.OnMap, Server.setPos, Server.modPlayer, hX, hY] using hpos
  have hidx : ((gameRemovePlayerFromTile s p).setPos p pos).mapIndex pos = s.mapIndex pos := by
    simp only [Server.mapIndex, Server.setPos, Server.modPlayer, hX]
  have h₃ := h₂.add (p := p) (fun hc => hc.2 rfl) (by rw [hr]; rfl) (mapIndex_lt hpos')
  rw [hidx] at h₃
  have hmove : gameMovePlayer s p pos =
      gameAddPlayerToTile ((gameRemovePlayerFromTile s p).setPos p pos) (s.mapIndex pos) p := by
    rw [gameMovePlayer, hidx]
  rw [hmove]
  refine h₃.congr rfl rfl (fun _ _ => rfl) (fun _ _ => rfl) (fun _ _ => rfl) (fun _ => rfl) (fun _ => rfl)
    fun a => ?_
  by_cases ha : a = p
  · subst ha; simp [hp]
  · simp [ha]

theorem Tiles.move (h : Tiles s placed L) {p : Addr} {pl : Player} (hp : placed p)
    (hpl : s.playerHeap p = some pl) {pos : Position} (hpos : s.OnMap pos) :
    ∃ L', Tiles (gameMovePlayer s p pos) placed L' :=
  ⟨_, h.moved hp hpl hpos⟩

/-- A player that is moved stands where it was moved to. -/
theorem Tiles.move_posOf (h : Tiles s placed L) {p : Addr} (hp : (s.playerHeap p).isSome) {pos : Position}
    (hpos : s.OnMap pos) : (gameMovePlayer s p pos).posOf p = some pos := by
  have hsame := (removePlayer_same s p).trans (setPos_same _ p pos)
  have hidx : ((gameRemovePlayerFromTile s p).setPos p pos).mapIndex pos = s.mapIndex pos := by
    rw [hsame.rest]
    rfl
  have htile : (s.map (s.mapIndex pos)).pos = pos := by
    have hx : (pos.y * s.mapX + pos.x) % s.mapX = pos.x := by rw [Nat.mul_add_mod', Nat.mod_eq_of_lt hpos.1]
    have hy : (pos.y * s.mapX + pos.x) / s.mapX = pos.y := by
      rw [Nat.add_comm, Nat.add_mul_div_right _ _ (Nat.zero_lt_of_lt hpos.1), Nat.div_eq_of_lt hpos.1, Nat.zero_add]
    rw [h.tilePos _ (mapIndex_lt hpos), Server.mapIndex, hx, hy]
  rw [gameMovePlayer, addPlayer_posOf _ _ (hsame.isSome hp), if_pos rfl, hidx, hsame.tilePos, htile]

end Zappy

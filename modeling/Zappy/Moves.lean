import Zappy.Placement
import Zappy.Lib.Turtle
import Mathlib.Data.ZMod.Basic

/-!
# Moves on the torus (`m_command_avance`, `m_command_droite`, `m_command_gauche`)

The map is a torus, and a player that executes moves walks on it.
-/

namespace Zappy

open Turtle

variable {width height : Nat} {s : Server} {p : Addr} {pl : Player}

/-- The four headings on a torus of the given size; `y` grows to the south. -/
def torusFrame (width height : Nat) : Frame (ZMod width × ZMod height) Direction where
  step
    | .north => (0, -1)
    | .east => (1, 0)
    | .south => (0, 1)
    | .west => (-1, 0)
  right := turnRight
  left := turnLeft

/-- A position as a point of the torus. -/
def Position.onTorus (width height : Nat) (pos : Position) : ZMod width × ZMod height := (pos.x, pos.y)

/-- Where a player stands, and where it looks. -/
def Player.pose (width height : Nat) (pl : Player) : Pose (ZMod width × ZMod height) Direction :=
  ⟨pl.pos.onTorus width height, pl.dir⟩

theorem onTorus_inj {pos pos' : Position} (hx : pos.x < width) (hy : pos.y < height) (hx' : pos'.x < width)
    (hy' : pos'.y < height) : pos.onTorus width height = pos'.onTorus width height ↔ pos = pos' := by
  constructor
  · intro he
    simp only [Position.onTorus, Prod.mk.injEq, ZMod.natCast_eq_natCast_iff', Nat.mod_eq_of_lt, hx, hy, hx', hy'] at he
    cases pos
    cases pos'
    simp_all
  · intro he
    rw [he]

/-- A step ahead of `avance` is a step of the walk. -/
theorem stepAhead_onTorus (hx : 0 < s.mapX) (hy : 0 < s.mapY) (pos : Position) (dir : Direction) :
    (stepAhead s pos dir).onTorus s.mapX s.mapY =
      pos.onTorus s.mapX s.mapY + (torusFrame s.mapX s.mapY).step dir := by
  cases dir with
  | north =>
    have hsub : pos.y + s.mapY - 1 = pos.y + (s.mapY - 1) := by omega
    simp [stepAhead, Position.onTorus, torusFrame, hsub, Nat.cast_sub hy]
  | east => simp [stepAhead, Position.onTorus, torusFrame]
  | south => simp [stepAhead, Position.onTorus, torusFrame]
  | west =>
    have hsub : pos.x + s.mapX - 1 = pos.x + (s.mapX - 1) := by omega
    simp [stepAhead, Position.onTorus, torusFrame, hsub, Nat.cast_sub hx]

/-- The move that a command makes. -/
def CommandType.move? : CommandType → Option Move
  | .avance => some .forward
  | .droite => some .right
  | .gauche => some .left
  | _ => none

/-- The answer to a move. -/
def moveAnswer (c : CommandType) (arg : Option Arg) : Json :=
  response ((commandMessages.lookup c).getD "") (arg.map Arg.text) (some "ok")

/-- A move command does one move of the walk, and answers. -/
theorem run_move (cfg : Config) (fuel : Nat) (hp : Placed width height s) (hpl : s.playerHeap p = some pl)
    (ev : Event) {c : CommandType} {m : Move} (hm : c.move? = some m) :
    ∃ s' pl', runCommand cfg fuel s p pl ev c = some s' ∧ s'.playerHeap p = some pl' ∧
      pl'.pose width height = (torusFrame width height).act (pl.pose width height) m ∧ pl'.id = pl.id ∧
      Placed width height s' ∧ s'.outbox = s.outbox ++ [(pl.id, moveAnswer c ev.arg)] := by
  have hturn : ∀ dir, Placed width height (s.modPlayer p fun r => { r with dir := dir }) ∧
      (s.modPlayer p fun r => { r with dir := dir }).playerHeap p = some { pl with dir := dir } := by
    intro dir
    refine ⟨hp.modPlayer p (fun _ => rfl) (fun _ => rfl) fun _ => rfl, ?_⟩
    rw [modPlayer_heap, if_pos rfl, hpl, Option.map_some]
  cases c with
  | avance =>
    cases hm
    have hon := hp.onMap hpl
    have hahead := onMap_stepAhead hon pl.dir
    have hmoved := hp.move hpl hahead
    have hsame := movePlayer_same s p (stepAhead s pl.pos pl.dir)
    obtain ⟨pl', hpl', hcore⟩ := hsame.player' hpl
    obtain ⟨hid, -, -, hdir, -⟩ := Player.core_eq hcore
    have hpos : pl'.pos = stepAhead s pl.pos pl.dir := by
      obtain ⟨-, -, -, L, hL⟩ := hp
      have hposOf := hL.move_posOf (by rw [hpl]; rfl) hahead
      rwa [Server.posOf, hpl', Option.map_some, Option.some.injEq] at hposOf
    refine ⟨_, pl', rfl, hpl', ?_, hid, hmoved.congr rfl rfl rfl rfl (Nat.le_refl _), ?_⟩
    · have hstep := stepAhead_onTorus (Nat.zero_lt_of_lt hon.1) (Nat.zero_lt_of_lt hon.2) pl.pos pl.dir
      rw [hp.mapX, hp.mapY] at hstep
      simp only [Player.pose, Frame.act, hpos, hdir, hstep]
    · have hout : (gameMovePlayer s p (stepAhead s pl.pos pl.dir)).outbox = s.outbox := by rw [hsame.rest]
      change (gameMovePlayer s p (stepAhead s pl.pos pl.dir)).outbox ++ _ = _
      rw [hout]
      rfl
  | droite =>
    cases hm
    obtain ⟨hplaced, hheap⟩ := hturn (turnRight pl.dir)
    exact ⟨_, _, rfl, hheap, rfl, rfl, hplaced.congr rfl rfl rfl rfl (Nat.le_refl _), rfl⟩
  | gauche =>
    cases hm
    obtain ⟨hplaced, hheap⟩ := hturn (turnLeft pl.dir)
    exact ⟨_, _, rfl, hheap, rfl, rfl, hplaced.congr rfl rfl rfl rfl (Nat.le_refl _), rfl⟩
  | _ => cases hm

/-! ### Several moves -/

/-- A player executes commands one after the other. -/
def executeMoves (cfg : Config) (chance : Chance) (s : Server) (p : Addr) (cs : List CommandType) : Option Server :=
  cs.foldlM (fun s c => runCallback cfg chance { callback := some (.command c), data := some p } s) s

/-- The player walks. -/
theorem executeMoves_walk (cfg : Config) (chance : Chance) (hp : Placed width height s)
    (hpl : s.playerHeap p = some pl) {cs : List CommandType} {moves : List Move}
    (hm : cs.mapM CommandType.move? = some moves) :
    ∃ s' pl', executeMoves cfg chance s p cs = some s' ∧ s'.playerHeap p = some pl' ∧
      pl'.pose width height = (torusFrame width height).walk (pl.pose width height) moves ∧
      Placed width height s' := by
  induction cs generalizing s pl moves with
  | nil =>
    cases hm
    exact ⟨s, pl, rfl, hpl, rfl, hp⟩
  | cons c cs ih =>
    simp only [List.mapM_cons, Option.bind_eq_bind, Option.bind_eq_some_iff, Option.pure_def,
      Option.some.injEq] at hm
    obtain ⟨m, hc, ms, hcs, rfl⟩ := hm
    obtain ⟨s₁, pl₁, hrun, hpl₁, hpose, -, hp₁, -⟩ :=
      run_move cfg chance.fuel hp hpl { callback := some (.command c), data := some p } hc
    obtain ⟨s', pl', hexec, hpl', hpose', hp'⟩ := ih hp₁ hpl₁ hcs
    refine ⟨s', pl', ?_, hpl', ?_, hp'⟩
    · rw [executeMoves, List.foldlM_cons, runCallback]
      simp only [Option.bind_some, hpl, hrun, Option.bind_eq_bind]
      exact hexec
    · rw [hpose', hpose, walk_cons]

end Zappy

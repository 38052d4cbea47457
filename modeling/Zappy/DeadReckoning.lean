import Zappy.Journeys
import Zappy.ClientState

/-!
# Dead reckoning (`Position.java`)

The client takes the place where it is welcomed for `(0, 0)` and its facing for the north, and follows the answers to
its moves.  On a square map, where the torus may be turned, the position that it keeps is the one on the server seen
from there.
-/

namespace Zappy

open Run Stateful Turtle

variable {cfg : Config} {n : Nat} {s s' : Server} {p : Addr} {pl pl' : Player} {advice : Advice} {msg : Json}
  {c : JavaClient} {m : Move}

/-! ### The client's mover -/

/-- The move that the client makes when a move is answered. -/
def ClientPosition.act (pos : ClientPosition) : Move → ClientPosition
  | .forward => pos.moveForward
  | .right => pos.turnRight
  | .left => pos.turnLeft

/-- A pose on the square torus, as the client writes it. -/
def ClientPosition.of (n : Nat) (pose : Pose (ZMod n × ZMod n) Direction) : ClientPosition where
  x := pose.place.1.val
  y := pose.place.2.val
  direction := pose.heading.value
  worldWidth := n
  worldHeight := n

private theorem val_add_one [NeZero n] (a : ZMod n) : ((a + 1).val : Int) = ((a.val : Int) + 1).tmod n := by
  have hval : (a + 1).val = (a.val + 1) % n := by
    rw [ZMod.val_add, ZMod.val_one_eq_one_mod, Nat.add_mod_mod]
  rw [hval, Int.tmod_eq_emod_of_nonneg (by omega)]
  push_cast
  rfl

private theorem val_sub_one [NeZero n] (a : ZMod n) : ((a - 1).val : Int) = ((a.val : Int) - 1 + n).tmod n := by
  have hpos : 0 < n := Nat.pos_of_ne_zero (NeZero.ne n)
  have hsub : a - 1 = ((a.val + (n - 1) : Nat) : ZMod n) := by
    rw [Nat.cast_add, ZMod.natCast_zmod_val, Nat.cast_sub hpos, ZMod.natCast_self, Nat.cast_one]
    ring
  have hcast : ((a.val + (n - 1) : Nat) : Int) = (a.val : Int) - 1 + n := by omega
  rw [hsub, ZMod.val_natCast, Int.natCast_mod, hcast, Int.tmod_eq_emod_of_nonneg (by omega)]

/-- The client moves on the torus as the server does. -/
private theorem act_of [NeZero n] (pose : Pose (ZMod n × ZMod n) Direction) (m : Move) :
    (ClientPosition.of n pose).act m = .of n ((torusFrame n n).act pose m) := by
  obtain ⟨⟨x, y⟩, dir⟩ := pose
  cases m with
  | forward =>
    cases dir
    all_goals
      simp only [ClientPosition.act, ClientPosition.moveForward, ClientPosition.of, Frame.act, torusFrame,
        Direction.value, Prod.mk_add_mk, add_zero, ← sub_eq_add_neg, val_sub_one, val_add_one]
  | right => cases dir <;> rfl
  | left => cases dir <;> rfl

/-! ### Turning the torus -/

/-- A square torus turned by a quarter, so that the east comes to the north. -/
def quarterTurn (n : Nat) : Rigid (torusFrame n n) (torusFrame n n) where
  linear :=
    { toFun := fun v => (v.2, -v.1)
      map_zero' := by simp
      map_add' := by
        intro v w
        simp [add_comm] }
  turn := turnLeft
  step := by
    intro dir
    cases dir <;> simp [torusFrame, turnLeft]
  right := by
    intro dir
    cases dir <;> rfl
  left := by
    intro dir
    cases dir <;> rfl

/-- The turn that brings a facing to the north. -/
def toNorth (n : Nat) : Direction → Rigid (torusFrame n n) (torusFrame n n)
  | .north => .refl _
  | .east => quarterTurn n
  | .south => (quarterTurn n).comp (quarterTurn n)
  | .west => (quarterTurn n).comp ((quarterTurn n).comp (quarterTurn n))

private theorem toNorth_turn (n : Nat) (dir : Direction) : (toNorth n dir).turn dir = .north := by
  cases dir <;> rfl

private theorem quarterTurn_bijective (n : Nat) :
    Function.Bijective (quarterTurn n).linear ∧ Function.Bijective (quarterTurn n).turn := by
  refine ⟨⟨?_, ?_⟩, ⟨?_, ?_⟩⟩
  · rintro ⟨x, y⟩ ⟨x', y'⟩ he
    have he : (y, -x) = (y', -x') := he
    simp only [Prod.mk.injEq, neg_inj] at he ⊢
    exact he.symm
  · rintro ⟨x, y⟩
    refine ⟨(-y, x), ?_⟩
    change (x, - -y) = (x, y)
    rw [neg_neg]
  · intro d d' he
    cases d <;> cases d' <;> first | rfl | cases he
  · intro d
    exact ⟨turnRight d, by cases d <;> rfl⟩

private theorem toNorth_bijective (n : Nat) (dir : Direction) :
    Function.Bijective (toNorth n dir).linear ∧ Function.Bijective (toNorth n dir).turn := by
  have hquarter := quarterTurn_bijective n
  have hhalf := And.intro (hquarter.1.comp hquarter.1) (hquarter.2.comp hquarter.2)
  cases dir with
  | north => exact ⟨Function.bijective_id, Function.bijective_id⟩
  | east => exact hquarter
  | south => exact hhalf
  | west => exact ⟨hquarter.1.comp hhalf.1, hquarter.2.comp hhalf.2⟩

/-- The isometry of the torus that brings a pose to `(0, 0)`, facing north. -/
def fromSpawn (spawn : Pose (ZMod n × ZMod n) Direction) :
    Pose (ZMod n × ZMod n) Direction → Pose (ZMod n × ZMod n) Direction :=
  (toNorth n spawn.heading).map (-(toNorth n spawn.heading).linear spawn.place)

private theorem fromSpawn_self (spawn : Pose (ZMod n × ZMod n) Direction) : fromSpawn spawn spawn = ⟨0, .north⟩ := by
  rw [fromSpawn, Rigid.map, add_neg_cancel, toNorth_turn]

/-! ### Messages -/

/-- The message sets or moves the position of the client. -/
def Json.steers (msg : Json) : Bool :=
  msg.textOr "type" "response" = some "welcome" ∨ msg.answered = some "avance" ∨ msg.answered = some "droite" ∨
    msg.answered = some "gauche"

/-- The client reads messages, with what the AI answers in each. -/
def handleAll (c : JavaClient) (stream : List (Advice × Json)) : JavaClient :=
  stream.foldl (fun c m => finalState (handleResponse m.1 m.2) c) c

private theorem handleResponse_still (h : msg.steers = false) (c : JavaClient) :
    (finalState (handleResponse advice msg) c).position = c.position := by
  simp only [Json.steers, decide_eq_false_iff_not, not_or] at h
  obtain ⟨hwelcome, havance, hdroite, hgauche⟩ := h
  have hleaves : Leaves (fun c => c.known.position) (handleResponse advice msg) := by
    refine handleResponse_leaves (g := Known.position) hwelcome fun cmd hcmd => handleAnswer_leaves ?_ ?_ ?_
    · rintro (rfl | rfl | rfl)
      · exact absurd hcmd havance
      · exact absurd hcmd hdroite
      · exact absurd hcmd hgauche
    · exact fun _ _ _ => rfl
    · exact fun _ _ _ => rfl
  exact hleaves.eq c

/-- The answer to a move moves the position. -/
private theorem handleResponse_move (h : Answers m msg) {pos : ClientPosition} (hpos : c.position = some pos) :
    (finalState (handleResponse advice msg) c).position = some (pos.act m) := by
  obtain ⟨cmd, arg, hm, rfl⟩ := h
  have htype : (moveAnswer cmd arg).lookup "type" = some (.str "response") := by rfl
  have hstatus : ∀ cmd, (moveAnswer cmd arg).lookup "status" = some (.str "ok") := by
    intro cmd
    cases arg <;> rfl
  have hmoved : ∀ (move : ClientPosition → ClientPosition) (c : JavaClient), c.position = some pos →
      (finalState (moved "ok" move) c).position = some (move pos) := by
    intro move c hpos
    unfold moved
    rw [if_pos rfl, finalState_get_bind, hpos]
    rfl
  cases cmd with
  | avance =>
    cases hm
    refine handleResponse_answer (I := fun k => k.position = some (pos.act .forward)) htype rfl (by decide) ?_
    simp only [handleAnswer, getOr_eq (hstatus .avance), pure_bind]
    exact hmoved _ _ hpos
  | droite =>
    cases hm
    refine handleResponse_answer (I := fun k => k.position = some (pos.act .right)) htype rfl (by decide) ?_
    simp only [handleAnswer, getAsString_eq (hstatus .droite), pure_bind]
    exact hmoved _ _ hpos
  | gauche =>
    cases hm
    refine handleResponse_answer (I := fun k => k.position = some (pos.act .left)) htype rfl (by decide) ?_
    simp only [handleAnswer, getAsString_eq (hstatus .gauche), pure_bind]
    exact hmoved _ _ hpos
  | _ => cases hm

/-- The welcome puts the client at `(0, 0)`, facing north. -/
private theorem handleResponse_welcome (advice : Advice) (remaining : Int) (hX : s.mapX = n) (hY : s.mapY = n)
    (c : JavaClient) :
    (finalState (handleResponse advice (welcome s remaining)) c).position = some (.of n ⟨0, .north⟩) := by
  have hstart : ClientPosition.of n ⟨0, .north⟩ = { worldWidth := s.mapX, worldHeight := s.mapY } := by
    simp [ClientPosition.of, Direction.value, hX, hY]
  rw [hstart]
  exact handleResponse_welcomed (I := fun k => k.position = _) s remaining rfl

/-- A client that reads the answers to some moves, and messages that do not steer it, walks these moves. -/
private theorem handleAll_walk [NeZero n] {stream : List (Advice × Json)} {moves : List Move} {answers : List Json}
    (hanswers : List.Forall₂ Answers moves answers) (hstream : (stream.map Prod.snd).filter Json.steers = answers)
    {pose : Pose (ZMod n × ZMod n) Direction} (hc : c.position = some (.of n pose)) :
    (handleAll c stream).position = some (.of n ((torusFrame n n).walk pose moves)) := by
  induction stream generalizing c pose moves answers with
  | nil =>
    rw [List.map_nil, List.filter_nil] at hstream
    subst hstream
    cases hanswers
    exact hc
  | cons entry stream ih =>
    obtain ⟨advice, msg⟩ := entry
    rw [List.map_cons] at hstream
    change (handleAll (finalState (handleResponse advice msg) c) stream).position = _
    by_cases hsteers : msg.steers
    · rw [List.filter_cons_of_pos hsteers] at hstream
      subst hstream
      obtain _ | ⟨hanswer, hanswers⟩ := hanswers
      refine ih hanswers rfl ?_
      rw [handleResponse_move hanswer hc, act_of]
    · rw [List.filter_cons_of_neg hsteers] at hstream
      refine ih hanswers hstream ?_
      rw [handleResponse_still (by simpa using hsteers), hc]

/-! ### Both sides -/

/-- On a square map, for every run of the game in which a player that was welcomed is not expelled: a client that
has read the welcome and the answers to the moves of the player in their order, among whatever messages that do not
steer it, is at the image of the player under the isometry that brings the player's place and facing at the welcome
to `(0, 0)` and the north. -/
theorem dead_reckoning_exact (cfg : Config) {n : Nat} (hn : 0 < n) (teams : List String) (nbClients : Nat)
    (counts : Nat → InventoryType → Nat) (as : List GameAction) {s : Server}
    (h : run (gameStep cfg) (gameInit cfg n n teams nbClients counts) as = some s) {p : Addr} {pl : Player}
    (hpl : s.playerHeap p = some pl) (bs : List GameAction) {s' : Server} (h' : run (gameStep cfg) s bs = some s')
    {pl' : Player} (hpl' : s'.playerHeap p = some pl') (hnot : AllSteps (gameStep cfg) (NotExpelled p) s bs)
    (remaining : Int) (advice : Advice) (stream : List (Advice × Json))
    (hstream : (stream.map Prod.snd).filter Json.steers = moveAnswers cfg p pl.id s bs) (c : JavaClient) :
    fromSpawn (pl.pose n n) (pl.pose n n) = ⟨0, .north⟩ ∧ Function.Bijective (fromSpawn (pl.pose n n)) ∧
      (handleAll c ((advice, welcome s remaining) :: stream)).position =
        some (.of n (fromSpawn (pl.pose n n) (pl'.pose n n))) := by
  obtain ⟨hwf, hp⟩ := placed_of_run hn hn h
  obtain ⟨moves, hanswers, hwalk⟩ := walk_of_run hwf hn hn hp hpl h' hpl' hnot
  have hbijective := toNorth_bijective n (pl.pose n n).heading
  refine ⟨fromSpawn_self _, (toNorth n _).map_bijective hbijective.1 hbijective.2 _, ?_⟩
  have : NeZero n := ⟨hn.ne'⟩
  have hstart := handleResponse_welcome advice remaining hp.mapX hp.mapY c
  have hend := handleAll_walk hanswers hstream hstart
  rw [← fromSpawn_self (pl.pose n n), fromSpawn, Rigid.walk, ← hwalk] at hend
  exact hend

/-- A player that looks to the west goes ahead and turns to the right. -/
def stroll : List GameAction :=
  [.execute 0 4 "avance" none, .execute 0 4 "droite" none, .tick 7, .playSlot {} 0, .playSlot {} 0]

theorem dead_reckoning_exact_stroll : ∃ (s s' : Server) (pl pl' : Player) (stream : List (Advice × Json)),
    run (gameStep shippedConfig) (gameInit shippedConfig 3 3 ["red"] 1 fun _ _ => 0)
      [.register 0 4 "red" ⟨1, 1, 3⟩] = some s ∧ s.playerHeap 1 = some pl ∧
    run (gameStep shippedConfig) s stroll = some s' ∧ s'.playerHeap 1 = some pl' ∧ pl'.pos = ⟨0, 1⟩ ∧
    stream.length = 2 ∧ (handleAll { teamName := "red" } ((none, welcome s 0) :: stream)).position =
      some (.of 3 (fromSpawn (pl.pose 3 3) (pl'.pose 3 3))) := by
  have hrun : ((run (gameStep shippedConfig) (gameInit shippedConfig 3 3 ["red"] 1 fun _ _ => 0)
      [.register 0 4 "red" ⟨1, 1, 3⟩]).bind fun s => (s.playerHeap 1).bind fun pl =>
        (run (gameStep shippedConfig) s stroll).bind fun s' => (s'.playerHeap 1).map fun pl' =>
          (pl'.pos, moveAnswers shippedConfig 1 pl.id s stroll,
            testGuard (gameStep shippedConfig) (fun s a =>
              (executed s a).all fun ev => decide (ev.callback ≠ some (.command .expulse))) s stroll)) =
      some (⟨0, 1⟩, [moveAnswer .avance none, moveAnswer .droite none], true) := by decide +kernel
  obtain ⟨s, hs, hmap⟩ := Option.bind_eq_some_iff.1 hrun
  obtain ⟨pl, hpl, hmap⟩ := Option.bind_eq_some_iff.1 hmap
  obtain ⟨s', hs', hmap⟩ := Option.bind_eq_some_iff.1 hmap
  obtain ⟨pl', hpl', hfacts⟩ := Option.map_eq_some_iff.1 hmap
  simp only [Prod.mk.injEq] at hfacts
  obtain ⟨hpos, hanswers, htest⟩ := hfacts
  have hnot : AllSteps (gameStep shippedConfig) (NotExpelled 1) s stroll := by
    have hguard : Guarded (gameStep shippedConfig)
        (fun s a => ∀ ev, executed s a = some ev → ev.callback ≠ some (.command .expulse)) s stroll := by
      refine Guarded.of_test (fun s a h ev hev => ?_) htest
      rw [hev] at h
      simpa using h
    refine hguard.mono fun s a s' _ hg => ?_
    rintro ⟨ev, hev, hexpulse⟩
    exact absurd hexpulse (hg ev hev)
  refine ⟨s, s', pl, pl', [(none, moveAnswer .avance none), (none, moveAnswer .droite none)], hs, hpl, hs', hpl', hpos,
    rfl, ?_⟩
  refine (dead_reckoning_exact shippedConfig (by decide) _ _ _ _ hs hpl stroll hs' hpl' hnot 0 none _ ?_ _).2.2
  rw [hanswers]
  decide

end Zappy

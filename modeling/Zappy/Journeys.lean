import Zappy.Moves
import Zappy.Elevation

/-!
# Journeys of a player

Over a run of the game, a player is moved and turned by its own move commands and by the expulsions of others, and by
nothing else.  So as long as nobody expels it, it walks the moves that it is answered for.
-/

namespace Zappy

open LinkedList Relation Run Turtle

variable {cfg : Config} {width height : Nat} {s s' : Server} {a : GameAction} {chance : Chance} {p q : Addr}
  {pl : Player}

/-! ### Whereabouts -/

/-- Where a player stands, where it looks, and on which descriptor it is told. -/
def Server.whereabouts (s : Server) (q : Addr) : Option (Position × Direction × Fd) :=
  (s.playerHeap q).map fun r => (r.pos, r.dir, r.id)

theorem whereabouts_eq (hpl : s.playerHeap q = some pl) : s.whereabouts q = some (pl.pos, pl.dir, pl.id) := by
  rw [Server.whereabouts, hpl, Option.map_some]

private theorem modPlayer_whereabouts (p q : Addr) {f : Player → Player}
    (hf : ∀ r, ((f r).pos, (f r).dir, (f r).id) = (r.pos, r.dir, r.id)) :
    (s.modPlayer p f).whereabouts q = s.whereabouts q := by
  simp only [Server.whereabouts, modPlayer_heap]
  split
  · rw [Option.map_map]
    congr 1
    funext r
    exact hf r
  · rfl

private theorem modPlayer_whereabouts_ne (s : Server) (f : Player → Player) (hq : q ≠ p) :
    (s.modPlayer p f).whereabouts q = s.whereabouts q := by
  simp only [Server.whereabouts, modPlayer_heap, if_neg hq]

/-- Who keeps its place, keeps its whereabouts when the lists of the tiles change. -/
private theorem whereabouts_of_core (hcore : (s'.playerHeap q).map Player.core = (s.playerHeap q).map Player.core)
    (hpos : s'.posOf q = s.posOf q) : s'.whereabouts q = s.whereabouts q := by
  unfold Server.whereabouts
  cases hr : s.playerHeap q with
  | none =>
    rw [hr, Option.map_none, Option.map_eq_none_iff] at hcore
    rw [hcore]
  | some r =>
    rw [hr, Option.map_some, Option.map_eq_some_iff] at hcore
    obtain ⟨r', hr', hcore⟩ := hcore
    simp only [Server.posOf, hr, hr', Option.map_some, Option.some.injEq] at hpos
    obtain ⟨hid, -, -, hdir, -⟩ := Player.core_eq hcore
    rw [hr', Option.map_some, Option.map_some, hpos, hdir, hid]

private theorem commandTransfer_whereabouts {cmd : String} {add : Int} {arg : Option Arg} :
    (commandTransfer cmd add s p pl arg).whereabouts q = s.whereabouts q := by
  unfold commandTransfer
  split
  · rfl
  split
  · rfl
  split
  · rfl
  · rename_i s₁ h
    change s₁.whereabouts q = s.whereabouts q
    simp only [helperItemsToTiles] at h
    split_ifs at h
    · cases h
      exact modPlayer_whereabouts (s := s.modTile _ _) _ _ fun _ => rfl
    · cases h
      exact modPlayer_whereabouts (s := s.modTile _ _) _ _ fun _ => rfl
    · cases h
      rfl

/-- A command of `p` leaves the whereabouts of `q` alone, unless it is a move of `q` or expels it. -/
private theorem runCommand_whereabouts {fuel : Nat} {ev : Event} {c : CommandType} (hmove : q = p → c.move? = none)
    (hstay : c = .expulse → s'.posOf q = s.posOf q) (h : runCommand cfg fuel s p pl ev c = some s') :
    s'.whereabouts q = s.whereabouts q := by
  have hother : c.move?.isSome → q ≠ p := by
    rintro hsome rfl
    rw [hmove rfl] at hsome
    cases hsome
  cases c with
  | avance =>
    cases h
    have hsame := movePlayer_same s p (stepAhead s pl.pos pl.dir)
    exact whereabouts_of_core (hsame.core q) (movePlayer_posOf_ne s _ (hother rfl))
  | droite =>
    cases h
    exact modPlayer_whereabouts_ne s _ (hother rfl)
  | gauche =>
    cases h
    exact modPlayer_whereabouts_ne s _ (hother rfl)
  | voir =>
    simp only [runCommand, commandVoir, Option.map_eq_some_iff] at h
    obtain ⟨vision, -, rfl⟩ := h
    rfl
  | inventaire => cases h; rfl
  | prend => cases h; exact commandTransfer_whereabouts
  | pose => cases h; exact commandTransfer_whereabouts
  | expulse =>
    refine whereabouts_of_core ?_ (hstay rfl)
    simp only [runCommand, commandExpulse] at h
    split at h
    · cases h; rfl
    · simp only [Option.map_eq_some_iff] at h
      obtain ⟨s₁, h₁, rfl⟩ := h
      refine forEach_invariant (I := fun s₁ => (s₁.playerHeap q).map Player.core = (s.playerHeap q).map Player.core)
        (fun s₁ it s₂ h' hI => ?_) h₁ rfl
      simp only [expulseTurn, Option.map_eq_some_iff] at h'
      obtain ⟨r, -, rfl⟩ := h'
      split
      · exact hI
      · exact ((movePlayer_same s₁ it _).core q).trans hI
  | broadcast =>
    simp only [runCommand, commandBroadcast, Option.map_eq_some_iff] at h
    obtain ⟨s₁, h₁, rfl⟩ := h
    refine Run.foldlM_invariant (I := fun s₁ => s₁.whereabouts q = s.whereabouts q)
      (fun s₁ slot _ s₂ h' hI => ?_) h₁ rfl
    rw [← hI]
    unfold broadcastTurn at h'
    split at h'
    · cases h'; rfl
    · simp only [Option.bind_eq_some_iff, Option.map_eq_some_iff] at h'
      obtain ⟨cl, -, r, -, rfl⟩ := h'
      rfl
  | incantation =>
    obtain rfl | ⟨-, rfl⟩ := commandIncantation_cases h
    · rfl
    · rw [queueCompletion_rest]
      rfl
  | fork => cases h; rfl
  | connectNbr =>
    simp only [runCommand, commandConnectNbr, Option.map_eq_some_iff] at h
    obtain ⟨n, -, rfl⟩ := h
    rfl

private theorem commandRealIncantation_whereabouts {arg : Option Arg}
    (h : commandRealIncantation s p pl arg = some s') : s'.whereabouts q = s.whereabouts q := by
  obtain ⟨copy, -, rfl | ⟨-, -, s₁, h₁, rfl⟩⟩ := commandRealIncantation_cases h
  · rfl
  · change s₁.whereabouts q = s.whereabouts q
    refine forEach_invariant (I := fun s₁ => s₁.whereabouts q = s.whereabouts q) (fun s₁ it s₂ h' hI => ?_) h₁ rfl
    rw [← hI]
    simp only [levelUpTurn, Option.map_eq_some_iff] at h'
    obtain ⟨r, -, rfl⟩ := h'
    split
    · exact modPlayer_whereabouts _ _ fun _ => rfl
    · rfl

/-! ### What a step executes -/

/-- The event that a step of the game executes. -/
def executed (s : Server) : GameAction → Option Event
  | .playSlot _ i => match s.clients[i]? with
    | some (some c) => (s.clientHeap c).bind fun cl => (s.playerHeap cl.player).bind fun pl =>
      if playerIsAlive pl s.now ∧ clientHasActions cl.eventBuffer s.now then
        some (cl.eventBuffer.events cl.eventBuffer.head)
      else none
    | _ => none
  | _ => none

theorem AtSlot.executed_eq {i : Nat} {c : Addr} {cl : Client} (h : AtSlot s i c cl pl) (chance : Chance) :
    executed s (.playSlot chance i) =
      if playerIsAlive pl s.now ∧ clientHasActions cl.eventBuffer s.now then
        some (cl.eventBuffer.events cl.eventBuffer.head)
      else none := by
  simp only [executed, h.slot, h.client, h.player, Option.bind_some]

/-- The move that an event makes a player do. -/
def Event.moveOf (p : Addr) (ev : Event) : Option Move :=
  match ev.callback with
  | some (.command c) => if ev.data = some p then c.move? else none
  | _ => none

/-- The move that a step makes a player do. -/
def moveOf (p : Addr) (s : Server) (a : GameAction) : Option Move := (executed s a).bind (Event.moveOf p)

/-- If the step is an `expulse`, it leaves `p` where it is. -/
def NotExpelled (p : Addr) (s : Server) (a : GameAction) (s' : Server) : Prop :=
  (∃ ev, executed s a = some ev ∧ ev.callback = some (.command .expulse)) → s'.posOf p = s.posOf p

/-! ### What a step leaves -/

theorem Effect.nextAddr_le (he : Effect cfg a s s') : s.nextAddr ≤ s'.nextAddr := by
  rcases he.level_cases with hkeep | ⟨haddr, -⟩
  · exact hkeep.addr
  · exact haddr.ge

private theorem runCallback_whereabouts {ev : Event} (hmove : ev.moveOf q = none)
    (hstay : ev.callback = some (.command .expulse) → s'.posOf q = s.posOf q)
    (h : runCallback cfg chance ev s = some s') : s'.whereabouts q = s.whereabouts q := by
  unfold runCallback at h
  split at h
  · cases h; rfl
  · cases h
    simp only [Server.whereabouts, (gameSpawnResources_same cfg chance.counts s ev).2.2.1]
  · rename_i type htype
    simp only [Option.bind_eq_some_iff] at h
    obtain ⟨p, hdata, pl, -, h⟩ := h
    refine runCommand_whereabouts ?_ ?_ h
    · rintro rfl
      rw [Event.moveOf, htype, hdata] at hmove
      exact (if_pos rfl).symm.trans hmove
    · rintro rfl
      exact hstay htype
  · simp only [Option.bind_eq_some_iff] at h
    obtain ⟨p, -, pl, -, h⟩ := h
    exact commandRealIncantation_whereabouts h

/-- Players that are alive after it were left alone by a death. -/
theorem gamePlayerDie_whereabouts {c : Addr} {cl : Client} (hfood : pl.inv.nourriture ≤ 0)
    (hq : ((gamePlayerDie cfg s c cl pl).2.playerHeap q).isSome) :
    (gamePlayerDie cfg s c cl pl).2.whereabouts q = s.whereabouts q := by
  have hburied : ∀ t : Server, ((buried t cl pl).playerHeap q).isSome →
      (buried t cl pl).whereabouts q = t.whereabouts q := by
    intro t hlive
    have hheap : (buried t cl pl).playerHeap =
        Function.update (gameRemovePlayerFromTile t cl.player).playerHeap cl.player none := rfl
    have hne : q ≠ cl.player := by
      rintro rfl
      rw [hheap, Function.update_self] at hlive
      cases hlive
    have hsame : (buried t cl pl).playerHeap q = (gameRemovePlayerFromTile t cl.player).playerHeap q := by
      rw [hheap, Function.update_of_ne hne]
    rw [Server.whereabouts, hsame]
    exact whereabouts_of_core ((removePlayer_same t cl.player).core q) (by rw [removePlayer_posOf])
  rcases gamePlayerDie_cases cfg s c cl hfood with ⟨-, h⟩ | ⟨s₁, h₁, ⟨-, h⟩ | ⟨s₂, h₂, hend⟩⟩
  · rw [h]
  · obtain ⟨i, -, rfl⟩ := removeClientFromServer_some h₁
    rw [h]
    rfl
  · have hleft : s₂.whereabouts q = s.whereabouts q := by
      obtain ⟨i, -, rfl⟩ := removeClientFromServer_some h₁
      obtain ⟨t, -, -, rfl⟩ := teamRemovePlayerFromTeam_some h₂
      rfl
    rcases hend with ⟨-, h⟩ | ⟨-, h⟩
    · rw [h] at hq ⊢
      exact (hburied s₂ hq).trans hleft
    · rw [h, releaseArgs_eq] at hq ⊢
      exact (hburied s₂ hq).trans hleft

/-- A turn executes no event and leaves the living where they are, or it is the callback of an event that decides
about the players, the ledger and the messages. -/
theorem gamePlaySlot_executed {i : Nat} (h : gamePlaySlot cfg chance s i = some s') :
    (executed s (.playSlot chance i) = none ∧
      ∀ q, (s'.playerHeap q).isSome → s'.whereabouts q = s.whereabouts q) ∨
    ∃ ev c b s₂, executed s (.playSlot chance i) = some ev ∧
      runCallback cfg chance ev (s.setClientBuffer c b) = some s₂ ∧ s'.playerHeap = s₂.playerHeap ∧
      s'.ledger = s₂.ledger ∧ s'.outbox = s₂.outbox := by
  cases gamePlaySlot_cases h with
  | empty hempty =>
    refine Or.inl ⟨?_, fun _ _ => rfl⟩
    unfold executed
    dsimp only
    split
    · rename_i c hi
      exact absurd hi (hempty c)
    · rfl
  | @eats c cl pl hat hdead =>
    refine Or.inl ⟨?_, fun q _ => modPlayer_whereabouts cl.player q fun _ => rfl⟩
    rw [hat.executed_eq, if_neg fun hboth => by rw [hdead] at hboth; cases hboth.1]
  | @dies c cl pl hat hdead hfood =>
    refine Or.inl ⟨?_, fun q hq => gamePlayerDie_whereabouts hfood hq⟩
    rw [hat.executed_eq, if_neg fun hboth => by rw [hdead] at hboth; cases hboth.1]
  | @waits c cl pl hat halive hidle =>
    refine Or.inl ⟨?_, fun _ _ => rfl⟩
    rw [hat.executed_eq, if_neg fun hboth => by rw [hidle] at hboth; cases hboth.2]
  | @plays c cl pl _ hat halive hdue hrun =>
    have hbuffer : s.clientBuffer c = cl.eventBuffer := clientBuffer_eq hat.client
    have hcount : 0 < cl.eventBuffer.count ∧ (cl.eventBuffer.events cl.eventBuffer.head).execTime ≤ s.now := by
      simpa only [clientHasActions, Bool.and_eq_true, decide_eq_true_eq] using hdue
    rcases process_cases hrun with ⟨-, hnot⟩ | ⟨-, -, s₂, hcall, hend⟩
    · rw [hbuffer] at hnot
      exact absurd hcount hnot
    · rw [hbuffer] at hcall hend
      refine Or.inr ⟨cl.eventBuffer.events cl.eventBuffer.head, c, cl.eventBuffer.pop, s₂, ?_, ?_, ?_⟩
      · rw [hat.executed_eq, if_pos ⟨halive, hdue⟩]
      · exact runCallback_of_called hcall
      · rcases hend with ⟨rfl, -⟩ | ⟨arg, -, -, rfl⟩
        · exact ⟨rfl, rfl, rfl⟩
        · exact ⟨rfl, rfl, rfl⟩

/-- Outside the turns of players nobody moves. -/
private theorem Effect.whereabouts (he : Effect cfg a s s') (ha : ∀ chance i, a ≠ .playSlot chance i)
    (hq : q < s.nextAddr) : s'.whereabouts q = s.whereabouts q := by
  cases he with
  | enter =>
    have hne : q ≠ s.nextAddr + 1 := Nat.ne_of_lt (Nat.lt_succ_of_lt hq)
    rw [enterGame_eq]
    refine whereabouts_of_core (q := q) ?_ ?_
    · refine ((addPlayer_same _ _ _).core q).trans ?_
      simp only [allocPlayer, Function.update_of_ne hne]
    · refine (addPlayer_posOf_ne _ hne).trans ?_
      simp only [Server.posOf, allocPlayer, Function.update_of_ne hne]
  | kill => exact modPlayer_whereabouts _ _ fun _ => rfl
  | quiet | takeRemovals | serverBuffer | schedule | spawn => rfl
  | _ => exact absurd rfl (ha _ _)

/-- A step in which `q` does not move and is not expelled. -/
private theorem gameStep_whereabouts (hwf : BuffersWF s) (hq : q < s.nextAddr) (h : gameStep cfg s a = some s')
    (hlive : (s'.playerHeap q).isSome) (hmove : moveOf q s a = none) (hnot : NotExpelled q s a s') :
    s'.whereabouts q = s.whereabouts q := by
  have hother : (∀ chance i, a ≠ .playSlot chance i) → s'.whereabouts q = s.whereabouts q := by
    intro ha
    have heff := gameStep_effects hwf h
    clear h hlive hnot hmove
    refine (?_ : s.nextAddr ≤ s'.nextAddr ∧ s'.whereabouts q = s.whereabouts q).2
    induction heff with
    | refl => exact ⟨Nat.le_refl _, rfl⟩
    | tail _ he ih =>
      have hmore := (he.noRitual ha).addr
      exact ⟨ih.1.trans hmore, (he.whereabouts ha (Nat.lt_of_lt_of_le hq ih.1)).trans ih.2⟩
  cases a with
  | playSlot chance i =>
    rcases gamePlaySlot_executed h with ⟨-, hkeep⟩ | ⟨ev, c, b, s₂, hev, hcall, hheap, -⟩
    · exact hkeep q hlive
    · have hnone : ev.moveOf q = none := by rwa [moveOf, hev, Option.bind_some] at hmove
      have hbefore : (s.setClientBuffer c b).whereabouts q = s.whereabouts q := rfl
      have hafter : s'.whereabouts q = s₂.whereabouts q := by rw [Server.whereabouts, hheap, Server.whereabouts]
      rw [hafter, ← hbefore]
      refine runCallback_whereabouts hnone (fun hexpulse => ?_) hcall
      have hpos := hnot ⟨ev, hev, hexpulse⟩
      rw [Server.posOf, hheap] at hpos
      exact hpos
  | _ => exact hother (by simp)

/-- The message answers a command that does the move. -/
def Answers (m : Move) (msg : Json) : Prop := ∃ c arg, CommandType.move? c = some m ∧ msg = moveAnswer c arg

/-- A step in which `q` moves. -/
private theorem gameStep_move (hp : Placed width height s) (hpl : s.playerHeap q = some pl)
    (h : gameStep cfg s a = some s') {m : Move} (hm : moveOf q s a = some m) :
    ∃ pl' msg, s'.playerHeap q = some pl' ∧ Answers m msg ∧ s'.outbox = s.outbox ++ [(pl.id, msg)] ∧
      pl'.pose width height = (torusFrame width height).act (pl.pose width height) m ∧ pl'.id = pl.id := by
  rw [moveOf, Option.bind_eq_some_iff] at hm
  obtain ⟨ev, hev, hm⟩ := hm
  cases a with
  | playSlot chance i =>
    rcases gamePlaySlot_executed h with ⟨hnone, -⟩ | ⟨ev', c, b, s₂, hev', hcall, hheap, -, hout⟩
    · rw [hnone] at hev
      cases hev
    · obtain rfl := Option.some.inj (hev'.symm.trans hev)
      unfold Event.moveOf at hm
      split at hm
      · rename_i type htype
        split at hm
        · rename_i hdata
          have hset : Placed width height (s.setClientBuffer c b) := hp.congr rfl rfl rfl rfl (Nat.le_refl _)
          have hpl' : (s.setClientBuffer c b).playerHeap q = some pl := hpl
          obtain ⟨s₃, pl', hrun, hheap', hpose, hid, -, hout'⟩ := run_move cfg chance.fuel hset hpl' ev' hm
          simp only [runCallback, htype, hdata, Option.bind_some, hpl', hrun, Option.some.injEq] at hcall
          subst hcall
          exact ⟨pl', _, by rw [hheap, hheap'], ⟨type, ev'.arg, hm, rfl⟩, hout.trans hout', hpose, hid⟩
        · cases hm
      · cases hm
  | _ => cases hev

/-! ### Runs -/

/-- A player that has died stays dead. -/
private theorem dead_of_run (hwf : BuffersWF s) (hp : p < s.nextAddr) (hdead : s.playerHeap p = none)
    {as : List GameAction} (h : run (gameStep cfg) s as = some s') : s'.playerHeap p = none := by
  have hlevel : s.levelOf p = none := by rw [Server.levelOf, hdead, Option.map_none]
  have hend := (game_invariant (I := fun s₁ => s.nextAddr ≤ s₁.nextAddr ∧ s₁.levelOf p = none)
    (fun a s₁ s₂ he _ hI => ?_) hwf ⟨Nat.le_refl _, hlevel⟩ h).2.2
  · exact Option.map_eq_none_iff.1 hend
  · rcases he.level_cases with hkeep | ⟨haddr, r, n, -, hr, hrise⟩
    · refine ⟨hI.1.trans hkeep.addr, ?_⟩
      by_contra hsome
      obtain ⟨level, hlevel⟩ := Option.ne_none_iff_exists'.1 hsome
      rcases hkeep.level p level hlevel with h' | ⟨hle, -⟩
      · rw [hI.2] at h'
        cases h'
      · exact absurd (Nat.lt_of_lt_of_le hp (hI.1.trans hle)) (Nat.lt_irrefl _)
    · refine ⟨by rw [haddr]; exact hI.1, ?_⟩
      have hne : p ≠ r := by
        rintro rfl
        rw [hI.2] at hr
        cases hr
      rw [hrise, Function.update_of_ne hne]
      exact hI.2

/-- What a step sends to a descriptor. -/
def sentTo (fd : Fd) (s s' : Server) : List Json :=
  ((s'.outbox.drop s.outbox.length).filter fun msg => msg.1 = fd).map Prod.snd

/-- What the steps of a run that move `p` send to a descriptor. -/
def moveAnswers (cfg : Config) (p : Addr) (fd : Fd) : Server → List GameAction → List Json
  | _, [] => []
  | s, a :: as => match gameStep cfg s a with
    | some s' => (if (moveOf p s a).isSome then sentTo fd s s' else []) ++ moveAnswers cfg p fd s' as
    | none => []

/-- A player that is not expelled walks the moves that it is answered for, in their order. -/
theorem walk_of_run (hwf : BuffersWF s) (hw : 0 < width) (hh : 0 < height) (hp : Placed width height s)
    (hpl : s.playerHeap p = some pl) {as : List GameAction} (h : run (gameStep cfg) s as = some s') {pl' : Player}
    (hpl' : s'.playerHeap p = some pl') (hnot : AllSteps (gameStep cfg) (NotExpelled p) s as) :
    ∃ moves, List.Forall₂ Answers moves (moveAnswers cfg p pl.id s as) ∧
      pl'.pose width height = (torusFrame width height).walk (pl.pose width height) moves := by
  induction as generalizing s pl with
  | nil =>
    cases h
    obtain rfl := Option.some.inj (hpl.symm.trans hpl')
    exact ⟨[], .nil, rfl⟩
  | cons a as ih =>
    have hlt : p < s.nextAddr := by
      by_contra hle
      rw [hp.fresh p (Nat.le_of_not_lt hle)] at hpl
      cases hpl
    simp only [run, Option.bind_eq_some_iff] at h
    obtain ⟨s₁, hstep, hrest⟩ := h
    obtain ⟨hnot₁, hnot⟩ := hnot s₁ hstep
    obtain ⟨hwf₁, hp₁, hnext⟩ := gameStep_invariant
      (I := fun s₁ => Placed width height s₁ ∧ s.nextAddr ≤ s₁.nextAddr)
      (fun _ _ _ he _ hI => ⟨he.placed hw hh hI.1, hI.2.trans he.nextAddr_le⟩) hwf ⟨hp, Nat.le_refl _⟩ hstep
    simp only [moveAnswers, hstep]
    cases hm : moveOf p s a with
    | none =>
      -- `p` does not move, and is alive since it is alive in the end
      have hlive : (s₁.playerHeap p).isSome := by
        by_contra hdead
        rw [Bool.not_eq_true, Option.isSome_eq_false_iff, Option.isNone_iff_eq_none] at hdead
        have hend := dead_of_run hwf₁ (Nat.lt_of_lt_of_le hlt hnext) hdead hrest
        rw [hend] at hpl'
        cases hpl'
      obtain ⟨pl₁, hpl₁⟩ := Option.isSome_iff_exists.1 hlive
      have hsame := gameStep_whereabouts hwf hlt hstep hlive hm hnot₁
      simp only [whereabouts_eq hpl₁, whereabouts_eq hpl, Option.some.injEq, Prod.mk.injEq] at hsame
      obtain ⟨hpos, hdir, hid⟩ := hsame
      obtain ⟨moves, hanswers, hwalk⟩ := ih hwf₁ hp₁ hpl₁ hrest hnot
      have hpose : pl₁.pose width height = pl.pose width height := by rw [Player.pose, hpos, hdir, Player.pose]
      rw [hid] at hanswers
      rw [hpose] at hwalk
      exact ⟨moves, hanswers, hwalk⟩
    | some m =>
      obtain ⟨pl₁, msg, hpl₁, hmsg, hout, hpose, hid⟩ := gameStep_move hp hpl hstep hm
      obtain ⟨moves, hanswers, hwalk⟩ := ih hwf₁ hp₁ hpl₁ hrest hnot
      have hsent : sentTo pl.id s s₁ = [msg] := by simp [sentTo, hout]
      rw [hid] at hanswers
      rw [hpose] at hwalk
      refine ⟨m :: moves, ?_, hwalk⟩
      rw [hsent]
      exact .cons hmsg hanswers

end Zappy

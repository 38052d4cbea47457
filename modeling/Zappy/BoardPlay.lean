import Zappy.BoardStates
import Zappy.Journeys
import Zappy.Rituals
import Zappy.Turns

/-!
# The server plays by the rules

Every step of the game is one order to the board, which depends on the state and on the step (`Server.order`): the
command whose turn it is, the end of a unit of food, a login, a removal or a batch of new resources.  The server
does with the board what `gameRules` allows for that order, so a run of the game is a trace of the rules.
-/

namespace Zappy

open LinkedList Relation Run Slots Turtle Tabletop

variable {cfg : Config} {a : GameAction} {width height seats : Nat} {s s' : Server} {p q : Addr} {pl ql : Player}
  {chance : Chance}

/-! ### Orders -/

/-- What a command asks of the board. -/
def commandOrder (width height : Nat) (p : Addr) (arg : Option Arg) : CommandType → GameOrder width height
  | .avance => .move p .forward
  | .droite => .move p .right
  | .gauche => .move p .left
  | .prend => match arg.bind fun a => inventoryTypeOf a.text with
    | some r => .take p r
    | none => .pass
  | .pose => match arg.bind fun a => inventoryTypeOf a.text with
    | some r => .put p r
    | none => .pass
  | .expulse => .expel p
  | .incantation => .pay p
  | .voir | .inventaire | .broadcast | .fork | .connectNbr => .pass

/-- What an event of a client asks of the board. -/
def Event.order (width height : Nat) (ev : Event) : GameOrder width height :=
  match ev.callback, ev.data with
  | some (.command c), some p => commandOrder width height p ev.arg c
  | some .realIncantation, some p => match ev.arg with
    | some a => .complete p (atoi a.text)
    | none => .pass
  | _, _ => .pass

/-- What the turn of a client asks of the board. -/
def Server.slotOrder (width height : Nat) (s : Server) (i : Nat) : GameOrder width height :=
  match s.clients[i]? with
  | some (some c) => match s.clientHeap c with
    | some cl => match s.playerHeap cl.player with
      | some pl =>
        if !playerIsAlive pl s.now then .expire cl.player
        else if clientHasActions cl.eventBuffer s.now then
          (cl.eventBuffer.events cl.eventBuffer.head).order width height
        else .pass
      | none => .pass
    | none => .pass
  | _ => .pass

/-- What a batch of `m_game_spawn_resources` puts on a tile that is not full. -/
def Server.growth (s : Server) (counts : Nat → InventoryType → Nat) (t : Nat) (r : InventoryType) : ℤ :=
  match (List.range s.spawnBatch).find? fun i => s.visited i == t with
  | some i => counts i r
  | none => 0

/-- What a step of the game asks of the board. -/
def Server.order (cfg : Config) (width height : Nat) (s : Server) : GameAction → GameOrder width height
  | .register conn fd teamName draw =>
    if (gameRegisterPlayer cfg s conn fd teamName draw).1 = .success then
      .enter (s.nextAddr + 1) fd ((newPlayer cfg s fd 0 draw).pose width height)
    else .pass
  | .kill fd => match (s.gameGetClientFromFd fd).bind s.clientHeap with
    | some cl => if (s.playerHeap cl.player).isSome then .starve cl.player else .pass
    | none => .pass
  | .playSlot _ i => s.slotOrder width height i
  | .playServer chance =>
    if s.spawnDue then .grow fun t => s.growth chance.counts (s.tileAt t) else .pass
  | _ => .pass

/-! ### Commands -/

/-- A message shows on no board. -/
private theorem board_respond (fd : Fd) (cmd : String) (arg status : Option String) :
    (s.createResponseToCommand fd cmd arg status).board width height = s.board width height := rfl

theorem Placed.avance (h : Placed width height s) (hpl : s.playerHeap p = some pl) (arg : Option Arg) :
    (gameRules width height seats).Allows (.move p .forward) (s.board width height)
      ((commandAvance s p pl arg).board width height) := by
  have hon := h.onMap hpl
  have hstep := stepAhead_onTorus (Nat.zero_lt_of_lt hon.1) (Nat.zero_lt_of_lt hon.2) pl.pos pl.dir
  rw [h.mapX, h.mapY] at hstep
  have hboard : (commandAvance s p pl arg).board width height = (s.board width height).modify p fun w =>
      { w with pose := (gameRules width height seats).frame.act w.pose .forward } := by
    rw [commandAvance, board_respond, h.board_move hpl (onMap_stepAhead hon pl.dir)]
    refine Board.ext (funext fun v => ?_) rfl
    rw [Board.modify_piece, Board.modify_piece]
    split
    · rename_i hv
      rw [hv, h.board_of_player hpl, Option.map_some, Option.map_some, hstep]
      rfl
    · rfl
  rw [hboard]
  exact .move .forward (h.board_of_player hpl)

/-- A command that turns the player. -/
private theorem Placed.turned (h : Placed width height s) (hpl : s.playerHeap p = some pl) {m : Move} {dir : Direction}
    (hdir : (gameRules width height seats).frame.act (pl.pose width height) m =
      ⟨pl.pos.onTorus width height, dir⟩) :
    (gameRules width height seats).Allows (.move p m) (s.board width height)
      ((s.modPlayer p fun r => { r with dir := dir }).board width height) := by
  have hplaced := h.modPlayer p (f := fun r => { r with dir := dir }) (fun _ => rfl) (fun _ => rfl) fun _ => rfl
  rw [h.board_modPlayer hplaced fun w =>
    { w with pose := (gameRules width height seats).frame.act w.pose m }]
  · exact .move m (h.board_of_player hpl)
  · intro r hr
    cases hpl.symm.trans hr
    have hpose : (pl.piece width height).pose = pl.pose width height := rfl
    rw [hpose, hdir]
    rfl

/-- Objects that change hands, or stay. -/
private theorem get_add_eq_gain (inv : Inventory) (r : InventoryType) (k : Int) :
    (inv.add r k).get = gain r k inv.get := by
  funext r'
  rw [Inventory.get_add, gain, Function.update_apply]
  split
  · rename_i hr
    rw [hr]
  · rfl

private theorem Placed.board_transfer (h : Placed width height s) (hpl : s.playerHeap p = some pl) (r : InventoryType)
    (k : Int) : ((s.modTile (s.mapIndex pl.pos) fun tile => { tile with items := tile.items.add r k }).modPlayer p
      fun pl => { pl with inv := pl.inv.add r (-k) }).board width height =
    ((s.board width height).restock (pl.piece width height).pose.place (gain r k)).modify p (Piece.pocket r (-k)) := by
  have htile := h.modTile (s.mapIndex pl.pos) (f := fun tile => { tile with items := tile.items.add r k })
    (fun _ => rfl) fun _ => rfl
  have hplayer := htile.modPlayer p (f := fun pl => { pl with inv := pl.inv.add r (-k) }) (fun _ => rfl)
    (fun _ => rfl) fun _ => rfl
  rw [htile.board_modPlayer hplayer (Piece.pocket r (-k)),
    h.board_modTile htile hpl (gain r k) fun tile => get_add_eq_gain tile.items r k]
  intro q _
  simp only [Player.piece, Piece.pocket, get_add_eq_gain]
  rfl

theorem Placed.prend (h : Placed width height s) (hpl : s.playerHeap p = some pl) (arg : Option Arg) :
    (gameRules width height seats).Allows (commandOrder width height p arg .prend) (s.board width height)
      ((commandPrend s p pl arg).board width height) := by
  have hpiece := h.board_of_player hpl
  unfold commandPrend commandTransfer commandOrder
  cases arg with
  | none => exact .pass _
  | some text =>
    dsimp only [Option.bind_some]
    cases hr : inventoryTypeOf text.text with
    | none => exact .pass _
    | some r =>
      have hstock := h.stock_here hpl r
      simp only [helperItemsToTiles, if_pos]
      by_cases hitems : (s.map (s.mapIndex pl.pos)).items.get r ≤ 0
      · rw [if_pos hitems]
        exact .takesNothing hpiece (by rw [hstock]; exact hitems)
      · rw [if_neg hitems]
        dsimp only
        rw [board_respond]
        have hboard := h.board_transfer hpl r (-1)
        rw [Int.neg_neg] at hboard
        rw [hboard]
        exact .take hpiece (by rw [hstock]; exact Int.not_le.1 hitems)

theorem Placed.pose (h : Placed width height s) (hpl : s.playerHeap p = some pl) (arg : Option Arg) :
    (gameRules width height seats).Allows (commandOrder width height p arg .pose) (s.board width height)
      ((commandPose s p pl arg).board width height) := by
  have hpiece := h.board_of_player hpl
  unfold commandPose commandTransfer commandOrder
  cases arg with
  | none => exact .pass _
  | some text =>
    dsimp only [Option.bind_some]
    cases hr : inventoryTypeOf text.text with
    | none => exact .pass _
    | some r =>
      simp only [helperItemsToTiles, show (1 : Int) ≠ -1 by decide, if_false, if_pos]
      by_cases hitems : pl.inv.get r ≤ 0
      · rw [if_pos hitems]
        exact .putsNothing hpiece hitems
      · rw [if_neg hitems]
        dsimp only
        rw [board_respond, h.board_transfer hpl r 1]
        exact .put hpiece (Int.not_le.1 hitems)

/-- An expulsion that ends has pushed one player that has another descriptor, or there was none. -/
theorem Placed.expulse (h : Placed width height s) (hpl : s.playerHeap p = some pl) {fuel : Nat}
    (hrun : commandExpulse fuel s pl = some s') :
    (gameRules width height seats).Allows (.expel p) (s.board width height) (s'.board width height) := by
  have hon := h.onMap hpl
  have hnew := onMap_stepAhead hon pl.dir
  have hpiece := h.board_of_player hpl
  obtain ⟨-, -, -, L, hL⟩ := id h
  rcases hL.expulseLoop_cases pl (mapIndex_lt hon) hnew with ⟨hspared, n, hloop⟩ | ⟨v, r, hv, hr, hid, hrest⟩
  · rw [commandExpulse_result hloop hrun, board_respond]
    refine .expelsNobody hpiece fun w x hx hplace => ?_
    obtain ⟨r, hr, rfl⟩ := h.player_of_board hx
    exact hspared w ((hL.mem_iff_pos hon w).2 ⟨r, hr, (h.place_eq_iff hpl hr).1 hplace⟩) r hr
  · rcases hrest with ⟨-, n, hloop⟩ | ⟨-, hnever⟩
    · obtain ⟨r', hr', hpos⟩ := (hL.mem_iff_pos hon v).1 hv
      cases hr.symm.trans hr'
      have hstep := stepAhead_onTorus (Nat.zero_lt_of_lt hon.1) (Nat.zero_lt_of_lt hon.2) pl.pos pl.dir
      rw [h.mapX, h.mapY] at hstep
      rw [commandExpulse_result hloop hrun, board_respond, expelled, board_respond, h.board_move hr hnew, hstep]
      exact .expel hpiece (h.board_of_player hr) ((h.place_eq_iff hpl hr).2 hpos) hid
    · rw [commandExpulse_loop, hnever] at hrun
      cases hrun

/-! ### Incantations -/

/-- The list of a player's tile holds the players that stand there. -/
private theorem Placed.own_tile (h : Placed width height s) (hpl : s.playerHeap p = some pl) :
    ∃ l, IsList s.nextOf s.prevOf (s.map (s.mapIndex pl.pos)).players l ∧ (∀ q ∈ l, (s.playerHeap q).isSome) ∧
      l.length ≤ s.nextAddr ∧ ∀ q, q ∈ l ↔ ∃ r, s.playerHeap q = some r ∧ r.pos = pl.pos := by
  have hon := h.onMap hpl
  obtain ⟨-, -, hfresh, L, hL⟩ := h
  have hlist := hL.list _ (mapIndex_lt hon)
  have hlive : ∀ q ∈ L (s.mapIndex pl.pos), (s.playerHeap q).isSome := fun q hq => hL.live (mapIndex_lt hon) hq
  refine ⟨_, hlist, hlive, length_le_of_lt hlist.nodup fun q hq => ?_, hL.mem_iff_pos hon⟩
  by_contra hge
  have hgone := hlive q hq
  rw [hfresh q (Nat.le_of_not_lt hge)] at hgone
  cases hgone

private theorem lacks_eq_false_iff_get (items req : Inventory) :
    items.lacks req = false ↔ ∀ r, req.get r ≤ items.get r := by
  constructor
  · exact fun h r => Inventory.lacks_false h r
  · intro h
    rw [Inventory.lacks_eq_false_iff]
    exact ⟨h .nourriture, h .linemate, h .deraumere, h .sibur, h .mendiane, h .phiras, h .thystame⟩

/-- `m_game_check_can_incantation` asks for a crew, and for the price if it is told to. -/
private theorem Placed.check_eq (h : Placed width height s) (seats : Nat) (hpl : s.playerHeap p = some pl)
    (checkItems : Bool) : ∃ ret, gameCheckCanIncantation s pl checkItems = some ret ∧ (ret = .success ↔
      (gameRules width height seats).Ready (s.board width height) (pl.piece width height) ∧
        (checkItems = true →
          (gameRules width height seats).Affords (s.board width height) (pl.piece width height))) := by
  obtain ⟨l, hl, hlive, hlen, hmem⟩ := h.own_tile hpl
  have hcrew := h.crew_ncard hpl hl.nodup hmem pl.level
  have hready : (gameRules width height seats).Ready (s.board width height) (pl.piece width height) ↔
      pl.level < levelMax ∧
        (levelReqs pl.level).playerNumber ≤ (l.countP fun q => s.levelOf q = some pl.level : Nat) := by
    rw [Rulebook.Ready, ← hcrew]
    rfl
  have hprice : (gameRules width height seats).Affords (s.board width height) (pl.piece width height) ↔
      (s.map (s.mapIndex pl.pos)).items.lacks (levelReqs pl.level).inv = false := by
    rw [lacks_eq_false_iff_get, Rulebook.Affords]
    exact forall_congr' fun r => by rw [h.stock_here hpl r]; rfl
  rw [hready, hprice, gameCheckCanIncantation]
  dsimp only
  rw [countLevel_eq hl hlive hlen]
  by_cases hlevel : pl.level ≥ levelMax
  · rw [if_pos hlevel]
    refine ⟨.error, rfl, ?_⟩
    simp [Int.not_lt.2 hlevel]
  · rw [if_neg hlevel]
    by_cases hitems : (checkItems && (s.map (s.mapIndex pl.pos)).items.lacks (levelReqs pl.level).inv) = true
    · rw [if_pos hitems]
      rw [Bool.and_eq_true] at hitems
      refine ⟨.error, rfl, ?_⟩
      simp [hitems.1, hitems.2]
    · rw [if_neg hitems, Option.map_some]
      refine ⟨_, rfl, ?_⟩
      have hpaid : checkItems = true →
          (s.map (s.mapIndex pl.pos)).items.lacks (levelReqs pl.level).inv = false := by
        intro hcheck
        rwa [hcheck, Bool.true_and, Bool.not_eq_true] at hitems
      split
      · rename_i hfew
        simp [Int.not_le.2 hfew]
      · rename_i hmany
        exact iff_of_true rfl ⟨⟨Int.not_le.1 hlevel, Int.not_lt.1 hmany⟩, hpaid⟩

/-- The price of an incantation is taken from the tile. -/
private theorem Placed.board_pay (h : Placed width height s) (seats : Nat) (hpl : s.playerHeap p = some pl) :
    Placed width height (payRitual s p pl) ∧
      (payRitual s p pl).board width height = (s.board width height).restock (pl.piece width height).pose.place
        fun items r => items r - (gameRules width height seats).price (pl.piece width height).level r := by
  have htile := h.modTile (s.mapIndex pl.pos)
    (f := fun tile => { tile with items := tile.items.minus (levelReqs pl.level).inv }) (fun _ => rfl) fun _ => rfl
  exact ⟨htile.record _, h.board_modTile htile hpl _ fun tile => funext fun r => Inventory.get_minus ..⟩

theorem Placed.incantation (h : Placed width height s) (h' : Placed width height s')
    (hpl : s.playerHeap p = some pl) {origin : Conn} (hrun : commandIncantation cfg s p pl origin = some s') :
    (gameRules width height seats).Allows (.pay p) (s.board width height) (s'.board width height) := by
  have hpiece := h.board_of_player hpl
  obtain ⟨ret, hret, hsuccess⟩ := h.check_eq seats hpl true
  simp only [commandIncantation, hret, Option.map_some] at hrun
  have hrefused : ret = .error → (gameRules width height seats).Allows (.pay p) (s.board width height)
      (s.board width height) := by
    rintro rfl
    exact .paysNothing hpiece fun hnot => by cases hsuccess.2 ⟨hnot.1, fun _ => hnot.2⟩
  cases ret with
  | error =>
    have hsame : s'.board width height = s.board width height := by
      split at hrun
      · cases hrun
        rfl
      · cases hrun
        rfl
    rw [hsame]
    exact hrefused rfl
  | success =>
    obtain ⟨hready, hprice⟩ := hsuccess.1 rfl
    have hlevel : pl.level < levelMax := hready.1
    rw [if_neg (Int.not_le.2 hlevel)] at hrun
    cases hrun
    obtain ⟨hpaid, hboard⟩ := h.board_pay seats hpl
    have hqueued : (queueCompletion cfg (payRitual s p pl) p pl origin).board width height =
        (payRitual s p pl).board width height := by
      refine hpaid.board_same h' (fun q => ?_) fun t => ?_
      · rw [queueCompletion_rest]
      · rw [queueCompletion_rest]
    rw [hqueued, hboard]
    exact .pay hpiece hready (hprice rfl)

/-- The loop of `m_command_real_incantation` writes levels only. -/
private theorem levelUpLoop_pieces (width height : Nat) {level : Int} {it : Option Addr}
    (h : levelUpLoop s level it = some s') (q : Addr) :
    (s'.playerHeap q).map (fun r => { r.piece width height with level := 0 }) =
      (s.playerHeap q).map fun r => { r.piece width height with level := 0 } := by
  refine forEach_invariant (I := fun s₁ => (s₁.playerHeap q).map (fun r => { r.piece width height with level := 0 }) =
    (s.playerHeap q).map fun r => { r.piece width height with level := 0 }) (fun s₁ b s₂ h' hI => ?_) h rfl
  rw [← hI]
  simp only [levelUpTurn, Option.map_eq_some_iff] at h'
  obtain ⟨r, hr, rfl⟩ := h'
  split
  · change Option.map _ ((s₁.modPlayer b _).playerHeap q) = _
    rw [modPlayer_heap]
    split
    · rename_i hq
      rw [hq, hr]
      rfl
    · rfl
  · rfl

/-- The players of the level on the tile rise, and nobody else. -/
private theorem Placed.board_raise (h : Placed width height s) (h' : Placed width height s')
    (hpl : s.playerHeap p = some pl) (hloop : levelUpLoop s pl.level (s.map (s.mapIndex pl.pos)).players = some s') :
    s'.board width height = (s.board width height).raise (pl.piece width height).pose.place pl.level := by
  obtain ⟨l, hl, hlive, hlen, hmem⟩ := h.own_tile hpl
  refine h'.board_eq (fun q => ?_) fun t r => ?_
  · have hrest := levelUpLoop_pieces width height hloop q
    have hlevel := levelUpLoop_levels hl hlive hlen hloop q
    rw [Board.raise_piece, h.board_piece]
    cases hq : s.playerHeap q with
    | none =>
      rw [hq, Option.map_none, Option.map_eq_none_iff] at hrest
      rw [hrest]
      rfl
    | some r =>
      rw [hq, Option.map_some, Option.map_eq_some_iff] at hrest
      obtain ⟨r', hr', hrest⟩ := hrest
      have hpiece : r'.piece width height = { r.piece width height with level := r'.level } := by
        simp only [Player.piece, Piece.mk.injEq, true_and] at hrest ⊢
        exact hrest
      have hhere := h.place_eq_iff hpl hq
      rw [levelOf_eq hr', levelOf_eq hq] at hlevel
      rw [hr', Option.map_some, Option.map_some, Option.map_some, hpiece]
      split at hlevel
      · rename_i hup
        obtain ⟨hlist, hat⟩ := hup
        obtain ⟨r₀, hr₀, hpos⟩ := (hmem q).1 hlist
        cases hq.symm.trans hr₀
        rw [if_pos ⟨hhere.2 hpos, Option.some.inj hat⟩, Option.some.inj hlevel, ← Option.some.inj hat]
        rfl
      · rename_i hstay
        have hnot : ¬((r.piece width height).pose.place = (pl.piece width height).pose.place ∧
            (r.piece width height).level = pl.level) :=
          fun hup => hstay ⟨(hmem q).2 ⟨r, hq, hhere.1 hup.1⟩, congrArg some hup.2⟩
        rw [if_neg hnot, Option.some.inj hlevel]
        rfl
  · rw [levelUpLoop_control hloop]
    rfl

theorem Placed.realIncantation (h : Placed width height s) (h' : Placed width height s')
    (hpl : s.playerHeap p = some pl) {a : Arg} (hrun : commandRealIncantation s p pl (some a) = some s') :
    (gameRules width height seats).Allows (.complete p (atoi a.text)) (s.board width height)
      (s'.board width height) := by
  have hpiece := h.board_of_player hpl
  obtain ⟨ret, hret, hsuccess⟩ := h.check_eq seats hpl false
  simp only [commandRealIncantation, Option.bind_some, hret] at hrun
  split at hrun
  · rename_i hlevel
    cases hrun
    exact .completesNothing hpiece fun hnot => hlevel hnot.1
  · rename_i hlevel
    rw [not_not] at hlevel
    cases ret with
    | error =>
      cases hrun
      exact .completesNothing hpiece fun hnot => by cases hsuccess.2 ⟨hnot.2, fun hfalse => by cases hfalse⟩
    | success =>
      simp only [← hlevel, Option.map_eq_some_iff] at hrun
      obtain ⟨s₁, hloop, rfl⟩ := hrun
      have hplaced : Placed width height s₁ := h'.congr rfl rfl rfl rfl (Nat.le_refl _)
      have hboard := h.board_raise hplaced hpl hloop
      rw [← hlevel]
      change (gameRules width height seats).Allows (.complete p pl.level) _ (s₁.board width height)
      rw [hboard]
      exact .complete hpiece (hsuccess.1 rfl).1

/-! ### Turns of clients -/

/-- A command does with the board what the rules allow for its order. -/
theorem Placed.runCommand (h : Placed width height s) (h' : Placed width height s') (hpl : s.playerHeap p = some pl)
    {fuel : Nat} {ev : Event} {c : CommandType} (hrun : runCommand cfg fuel s p pl ev c = some s') :
    (gameRules width height seats).Allows (commandOrder width height p ev.arg c) (s.board width height)
      (s'.board width height) := by
  cases c with
  | avance =>
    cases hrun
    exact h.avance hpl ev.arg
  | droite =>
    cases hrun
    exact h.turned hpl rfl
  | gauche =>
    cases hrun
    exact h.turned hpl rfl
  | prend =>
    cases hrun
    exact h.prend hpl ev.arg
  | pose =>
    cases hrun
    exact h.pose hpl ev.arg
  | expulse => exact h.expulse hpl hrun
  | incantation => exact h.incantation h' hpl hrun
  | voir =>
    simp only [Zappy.runCommand, commandVoir, Option.map_eq_some_iff] at hrun
    obtain ⟨vision, -, rfl⟩ := hrun
    exact .pass _
  | inventaire =>
    cases hrun
    exact .pass _
  | broadcast =>
    have hsame : s'.board width height = s.board width height := by
      simp only [Zappy.runCommand, commandBroadcast, Option.map_eq_some_iff] at hrun
      obtain ⟨s₁, h₁, rfl⟩ := hrun
      refine Run.foldlM_invariant (I := fun s₁ => s₁.board width height = s.board width height)
        (fun s₁ slot _ s₂ hturn hI => ?_) h₁ rfl
      rw [← hI]
      unfold broadcastTurn at hturn
      split at hturn
      · cases hturn
        rfl
      · simp only [Option.bind_eq_some_iff, Option.map_eq_some_iff] at hturn
        obtain ⟨cl, -, q, -, rfl⟩ := hturn
        rfl
    rw [hsame]
    exact .pass _
  | fork =>
    cases hrun
    exact .pass _
  | connectNbr =>
    simp only [Zappy.runCommand, commandConnectNbr, Option.map_eq_some_iff] at hrun
    obtain ⟨n, -, rfl⟩ := hrun
    exact .pass _

/-- So does the callback of an event of a client. -/
theorem Placed.runCallback (h : Placed width height s) (h' : Placed width height s') {ev : Event}
    (hev : ev.callback ≠ some .spawnResources) (hrun : runCallback cfg chance ev s = some s') :
    (gameRules width height seats).Allows (ev.order width height) (s.board width height) (s'.board width height) := by
  unfold Zappy.runCallback at hrun
  split at hrun
  · rename_i hcb
    cases hrun
    rw [Event.order, hcb]
    exact .pass _
  · rename_i hcb
    exact absurd hcb hev
  · rename_i c hcb
    simp only [Option.bind_eq_some_iff] at hrun
    obtain ⟨p, hdata, pl, hpl, hrun⟩ := hrun
    rw [Event.order, hcb, hdata]
    exact h.runCommand h' hpl hrun
  · rename_i hcb
    simp only [Option.bind_eq_some_iff] at hrun
    obtain ⟨p, hdata, pl, hpl, hrun⟩ := hrun
    rw [Event.order, hcb, hdata]
    cases harg : ev.arg with
    | none =>
      rw [harg] at hrun
      cases hrun
    | some a =>
      rw [harg] at hrun
      exact h.realIncantation h' hpl hrun

/-- A death leaves the items on the tiles alone. -/
private theorem gamePlayerDie_items {c : Addr} {cl : Client} (hfood : pl.inv.nourriture ≤ 0) (t : Nat) :
    ((gamePlayerDie cfg s c cl pl).2.map t).items = (s.map t).items := by
  rcases gamePlayerDie_cases cfg s c cl hfood with ⟨-, h⟩ | ⟨s₁, h₁, ⟨-, h⟩ | ⟨s₂, h₂, hend⟩⟩
  · rw [h]
  · obtain ⟨i, -, rfl⟩ := removeClientFromServer_some h₁
    rw [h]
  · have hburied : ((buried s₂ cl pl).map t).items = (s.map t).items := by
      obtain ⟨i, -, rfl⟩ := removeClientFromServer_some h₁
      obtain ⟨team, -, -, rfl⟩ := teamRemovePlayerFromTeam_some h₂
      exact (removePlayer_same _ cl.player).items t
    rcases hend with ⟨-, h⟩ | ⟨-, h⟩
    · rw [h]
      exact hburied
    · rw [h, releaseArgs_eq]
      exact hburied

/-- A death takes the piece of the player off the board. -/
private theorem Placed.board_die (h : Placed width height s) (hreg : Registered s) {i : Nat} {c : Addr} {cl : Client}
    (hat : AtSlot s i c cl pl) (hfood : pl.inv.nourriture ≤ 0) :
    (gamePlayerDie cfg s c cl pl).2.board width height = (s.board width height).remove cl.player := by
  have h' : Placed width height (gamePlayerDie cfg s c cl pl).2 := h.die hat.player hfood
  have hleft := (hreg.left cfg (mem_of_getElem? hat.slot) hat.client hat.player hfood).2
  refine h'.board_eq (fun q => ?_) fun t r => ?_
  · have hkey := congrFun hleft.player q
    rw [Board.remove_piece, h.board_piece]
    rw [Function.update_apply, Server.playerKey, Server.playerKey] at hkey
    split at hkey
    · rename_i hq
      rw [if_pos hq, Option.map_eq_none_iff.1 hkey]
      rfl
    · rename_i hq
      rw [if_neg hq]
      cases hr' : (gamePlayerDie cfg s c cl pl).2.playerHeap q with
      | none =>
        rw [hr', Option.map_none, eq_comm, Option.map_eq_none_iff] at hkey
        rw [hkey]
      | some r' =>
        -- who is left was neither moved nor robbed
        have hcore := (gamePlayerDie_core hfood q).resolve_left
          (by rw [hr']; exact Option.some_ne_none r')
        have hplace := gamePlayerDie_whereabouts hfood
          (by rw [hr']; rfl)
        rw [hr', Option.map_some, eq_comm, Option.map_eq_some_iff] at hcore
        obtain ⟨r, hr, hcore⟩ := hcore
        rw [whereabouts_eq hr', whereabouts_eq hr, Option.some.injEq, Prod.mk.injEq] at hplace
        rw [hr, Option.map_some, Option.map_some, piece_of_core hcore.symm, hplace.1]
        rfl
  · have htile : (gamePlayerDie cfg s c cl pl).2.tileAt t = s.tileAt t := by
      rw [Server.tileAt, Server.tileAt, Server.mapIndex, Server.mapIndex, h.mapX, h'.mapX]
    rw [gamePlayerDie_items hfood, htile]
    rfl

private theorem slotOrder_eq {i : Nat} {c : Addr} {cl : Client} (hat : AtSlot s i c cl pl) :
    s.slotOrder width height i = if !playerIsAlive pl s.now then .expire cl.player
      else if clientHasActions cl.eventBuffer s.now then
        (cl.eventBuffer.events cl.eventBuffer.head).order width height
      else .pass := by
  simp only [Server.slotOrder, hat.slot, hat.client, hat.player]

/-- The turn of a slot. -/
theorem Placed.playSlot (h : Placed width height s) (h' : Placed width height s') (hreg : Registered s)
    (hapart : PlayersApart s) {i : Nat} (hstep : gamePlaySlot cfg chance s i = some s') :
    (gameRules width height seats).Allows (s.slotOrder width height i) (s.board width height)
      (s'.board width height) := by
  cases gamePlaySlot_cases hstep with
  | empty hempty =>
    have hpass : s.slotOrder width height i = .pass := by
      unfold Server.slotOrder
      split
      · rename_i c hi
        exact absurd hi (hempty c)
      · rfl
    rw [hpass]
    exact .pass _
  | @eats c cl pl hat hdead hfood =>
    have hplaced : Placed width height (s.modPlayer cl.player fun r =>
        { r with
          inv := { r.inv with nourriture := r.inv.nourriture - 1 }
          dieTime := u64 (r.dieTime + cfg.lifeUnit) }) :=
      h.modPlayer cl.player (fun _ => rfl) (fun _ => rfl) fun _ => rfl
    have hboard := h.board_modPlayer hplaced (Piece.pocket .nourriture (-1)) fun r _ => by
      have hinv := get_add_eq_gain r.inv .nourriture (-1)
      simp only [Player.piece, Piece.pocket, ← hinv]
      rfl
    rw [slotOrder_eq hat, hdead]
    change (gameRules width height seats).Allows (.expire cl.player) _ ((s.modPlayer cl.player _).board width height)
    rw [hboard]
    exact .eat (h.board_of_player hat.player) hfood
  | dies hat hdead hfood =>
    rw [slotOrder_eq hat, hdead, h.board_die hreg hat hfood]
    exact .leave (h.board_of_player hat.player) hfood
  | waits hat halive hidle =>
    rw [slotOrder_eq hat, halive, hidle]
    exact .pass _
  | @plays c cl pl _ hat halive hdue hrun =>
    rw [slotOrder_eq hat, halive, hdue]
    have hbuffer := clientBuffer_eq hat.client
    rcases process_cases hrun with ⟨-, hnot⟩ | ⟨-, -, s₂, hcall, hend⟩
    · rw [hbuffer] at hnot
      simp only [clientHasActions, Bool.and_eq_true, decide_eq_true_eq] at hdue
      exact absurd hdue hnot
    · rw [hbuffer] at hcall
      have hpopped : Placed width height (s.setClientBuffer c cl.eventBuffer.pop) :=
        h.congr rfl rfl rfl rfl (Nat.le_refl _)
      have hcalled : (gameRules width height seats).Allows
          ((cl.eventBuffer.events cl.eventBuffer.head).order width height) (s.board width height)
          (s₂.board width height) := by
        refine hpopped.runCallback ?_ (hapart c cl hat.client _) (runCallback_of_called hcall)
        rcases hend with ⟨rfl, -⟩ | ⟨arg, -, -, rfl⟩
        · exact h'
        · exact h'.congr rfl rfl rfl rfl (Nat.le_refl _)
      rcases hend with ⟨rfl, -⟩ | ⟨arg, -, -, rfl⟩
      · exact hcalled
      · exact hcalled

/-! ### Removals and logins -/

theorem Placed.kill (h : Placed width height s) (fd : Fd) :
    (gameRules width height seats).Allows (s.order cfg width height (.kill fd)) (s.board width height)
      ((gameKillPlayer s fd).board width height) := by
  unfold Server.order gameKillPlayer
  dsimp only
  cases hc : s.gameGetClientFromFd fd with
  | none => exact .pass _
  | some c =>
    rw [Option.bind_some]
    dsimp only
    cases hcl : s.clientHeap c with
    | none => exact .pass _
    | some cl =>
      dsimp only
      cases hpl : s.playerHeap cl.player with
      | none => exact .pass _
      | some pl =>
        have hplaced : Placed width height (s.modPlayer cl.player fun r =>
            { r with dieTime := 0, inv := { r.inv with nourriture := 0 } }) :=
          h.modPlayer cl.player (fun _ => rfl) (fun _ => rfl) fun _ => rfl
        have hboard := h.board_modPlayer hplaced (fun w =>
          { w with pouch := Function.update w.pouch (gameRules width height seats).food 0 }) fun r _ => by
            simp only [Player.piece, Piece.mk.injEq, true_and]
            refine ⟨rfl, funext fun r' => ?_⟩
            cases r' <;> rfl
        change (gameRules width height seats).Allows (.starve cl.player) _
          ((s.modPlayer cl.player _).board width height)
        rw [hboard]
        exact .starve (h.board_of_player hpl)

/-- The pieces on the board belong to clients of the table. -/
private theorem Placed.pieces_le (h : Placed width height s) (hreg : Registered s) :
    (s.board width height).pieces.ncard ≤ s.live.length := by
  have hsub : (s.board width height).pieces ⊆
      ↑(s.live.toFinset.image fun c => ((s.clientKey c).map Prod.snd).getD 0) := by
    intro p hp
    rw [Board.mem_pieces, h.board_piece, Option.isSome_map] at hp
    obtain ⟨c, hc, fd, hk⟩ := hreg.owned p (by rw [Server.playerKey, Option.isSome_map]; exact hp)
    rw [Finset.mem_coe, Finset.mem_image]
    exact ⟨c, List.mem_toFinset.2 hc, by rw [hk]; rfl⟩
  calc (s.board width height).pieces.ncard
      ≤ ((s.live.toFinset.image fun c => ((s.clientKey c).map Prod.snd).getD 0 : Finset Addr) : Set Addr).ncard :=
        Set.ncard_le_ncard hsub (Finset.finite_toSet _)
    _ ≤ s.live.toFinset.card := by rw [Set.ncard_coe_finset]; exact Finset.card_image_le
    _ ≤ s.live.length := List.toFinset_card_le _

/-- A login puts a piece of the first level on the board. -/
private theorem Placed.board_enter (h : Placed width height s) (hw : 0 < width) (hh : 0 < height) (conn : Conn)
    (fd : Fd) (teamId : Nat) (draw : StartDraw) :
    (enterGame cfg s conn fd teamId draw).board width height = (s.board width height).seat (s.nextAddr + 1)
      ⟨fd, (newPlayer cfg s fd teamId draw).pose width height, 1, fun _ => 0⟩ := by
  have hplaced : Placed width height (Zappy.onTile cfg s conn fd teamId draw) := h.onTile hw hh conn fd teamId draw
  have hsame := addPlayer_same (allocPlayer cfg s conn fd teamId draw)
    (s.mapIndex ⟨draw.x % s.mapX, draw.y % s.mapY⟩) (s.nextAddr + 1)
  have hnew : (allocPlayer cfg s conn fd teamId draw).playerHeap (s.nextAddr + 1) =
      some (newPlayer cfg s fd teamId draw) := Function.update_self ..
  have hpos := addPlayer_posOf (allocPlayer cfg s conn fd teamId draw)
    (s.mapIndex ⟨draw.x % s.mapX, draw.y % s.mapY⟩) (by rw [hnew]; rfl)
  have hdrawn : s.OnMap ⟨draw.x % s.mapX, draw.y % s.mapY⟩ := by
    rw [Server.OnMap, h.mapX, h.mapY]
    exact ⟨Nat.mod_lt _ hw, Nat.mod_lt _ hh⟩
  have htile : (s.map (s.mapIndex ⟨draw.x % s.mapX, draw.y % s.mapY⟩)).pos =
      ⟨draw.x % s.mapX, draw.y % s.mapY⟩ := by
    obtain ⟨-, -, -, L, hL⟩ := h
    rw [hL.tilePos _ (mapIndex_lt hdrawn), Server.mapIndex, (index_coords hdrawn.1).1, (index_coords hdrawn.1).2]
  rw [enterGame_eq]
  change (Zappy.onTile cfg s conn fd teamId draw).board width height = _
  refine hplaced.board_eq (fun q => ?_) fun t r => ?_
  · rw [Board.seat_piece]
    split
    · rename_i hq
      obtain ⟨r', hr', hcore⟩ := hsame.player' hnew
      have hthere := hpos (s.nextAddr + 1)
      rw [if_pos rfl, Server.posOf, hr', Option.map_some, Option.some.injEq] at hthere
      have hstands : r'.pos = ⟨draw.x % s.mapX, draw.y % s.mapY⟩ := hthere.trans htile
      rw [hq, Zappy.onTile, hr', Option.map_some, piece_of_core hcore, hstands]
      simp only [Player.piece, Player.pose, newPlayer, Option.some.injEq, Piece.mk.injEq, true_and]
      exact funext fun r => Inventory.get_zero r
    · rename_i hq
      have hold : (allocPlayer cfg s conn fd teamId draw).playerHeap q = s.playerHeap q := Function.update_of_ne hq _ _
      rw [h.board_piece, ← hold]
      refine piece_of_place (hsame.core q) ?_
      have hthere := hpos q
      rwa [if_neg hq] at hthere
  · rw [Zappy.onTile, hsame.items, hsame.rest]
    rfl

/-- A login takes a seat, or changes nothing. -/
theorem Placed.register (h : Placed width height s) (hw : 0 < width) (hh : 0 < height) (hreg : Registered s)
    (hseats : s.clients.length ≤ seats) (conn : Conn) (fd : Fd) (teamName : String) (draw : StartDraw) :
    (gameRules width height seats).Allows (s.order cfg width height (.register conn fd teamName draw))
      (s.board width height) ((gameRegisterPlayer cfg s conn fd teamName draw).2.board width height) := by
  unfold Server.order
  dsimp only
  cases hret : (gameRegisterPlayer cfg s conn fd teamName draw).1 with
  | error =>
    rw [gameRegisterPlayer_error hret, if_neg (by decide)]
    exact .pass _
  | success =>
    obtain ⟨teamId, t, -, ht, hfull, hentered⟩ := gameRegisterPlayer_success hret
    have hfree := hreg.free_slot ht hfull
    have hpieces := h.pieces_le hreg
    rw [if_pos rfl, hentered, h.board_enter hw hh]
    refine .enter fd _ ?_ ?_
    · rw [h.board_piece, h.fresh _ (Nat.le_succ _)]
      rfl
    · exact Nat.lt_of_le_of_lt hpieces (Nat.lt_of_lt_of_le hfree hseats)

/-! ### New resources -/

/-- What an execution leaves on a tile is its stock and its growth. -/
private theorem spawnTurns_get (counts : Nat → InventoryType → Nat) (hsize : 0 < s.mapSize) (t : Nat)
    (r : InventoryType) : (((List.range s.spawnBatch).foldl (spawnTurn counts) s).map t).items.get r =
      if 15 < (s.map t).items.sum then (s.map t).items.get r
      else (s.map t).items.get r + s.growth counts t r := by
  rw [spawnTurns_tile counts _ s (batch_nodup hsize), Server.growth]
  split
  · rfl
  · cases (List.range s.spawnBatch).find? fun i => s.visited i == t with
    | none => exact (Int.add_zero _).symm
    | some i => rw [Inventory.get_plus, get_inventoryOf]

/-- The turn of the server's buffer. -/
theorem Placed.playServer (h : Placed width height s) (h' : Placed width height s') (hw : 0 < width) (hh : 0 < height)
    (hwf : BuffersWF s) (hstep : processServer cfg chance s = some s') :
    (gameRules width height seats).Allows (s.order cfg width height (.playServer chance)) (s.board width height)
      (s'.board width height) := by
  unfold Server.order
  dsimp only
  rcases process_cases hstep with ⟨rfl, hnot⟩ | ⟨hcount, hdue, s₂, hcall, hend⟩
  · have hidle : s'.spawnDue = false := by
      rw [Bool.eq_false_iff]
      intro hdue
      simp only [Server.spawnDue, Bool.and_eq_true, decide_eq_true_eq] at hdue
      exact hnot hdue.1
    rw [hidle]
    exact .pass _
  · have hsame : s'.board width height = s₂.board width height := by
      rcases hend with ⟨rfl, -⟩ | ⟨arg, -, -, rfl⟩
      · rfl
      · rfl
    rw [hsame]
    cases hcb : (s.eventBuffer.events s.eventBuffer.head).callback with
    | none =>
      have hidle : s.spawnDue = false := by simp [Server.spawnDue, hcb]
      rw [hcb] at hcall
      cases hcall
      rw [hidle]
      exact .pass _
    | some cb =>
      obtain rfl := hwf.server _ _ hcb
      have hspawn : s.spawnDue = true := by simp [Server.spawnDue, hcount, hdue, hcb]
      rw [hcb] at hcall
      simp only [Option.isSome_some, if_true, Zappy.runCallback, hcb, Option.some.injEq] at hcall
      have hgrown : s₂.board width height = { s.board width height with
          stock := fun t r => if (gameRules width height seats).full ((s.board width height).stock t) then
              (s.board width height).stock t r
            else (s.board width height).stock t r + s.growth chance.counts (s.tileAt t) r } := by
        have hplaced : Placed width height s₂ := by
          rcases hend with ⟨rfl, -⟩ | ⟨arg, -, -, rfl⟩
          · exact h'
          · exact h'.congr rfl rfl rfl rfl (Nat.le_refl _)
        have hsize : 0 < s.mapSize := by
          rw [Server.mapSize, h.mapX, h.mapY]
          exact Nat.mul_pos hw hh
        refine hplaced.board_eq (fun q => ?_) fun t r => ?_
        · rw [← hcall, (gameSpawnResources_same cfg chance.counts _ _).2.2.1]
          exact (h.board_piece q).symm
        · have hitems := spawnTurns_get (s := { s with eventBuffer := s.eventBuffer.pop }) chance.counts hsize
            (s.tileAt t) r
          rw [← hcall, gameSpawnResources_rest]
          refine hitems.trans ?_
          simp only [gameRules, decide_eq_true_eq]
          rfl
      rw [hspawn, if_pos rfl, hgrown]
      exact .grow _ _

/-! ### Steps and runs -/

private theorem Effect.slots_length (he : Effect cfg a s s') : s'.clients.length = s.clients.length := by
  cases he with
  | enter hname ht hfull =>
    rw [enterGame_eq]
    dsimp only
    cases hadd : addClientToServer _ _ with
    | none => rfl
    | some s₁ =>
      obtain ⟨i, -, rfl⟩ := Option.map_eq_some_iff.1 hadd
      exact List.length_set
  | @die _ chance i c cl pl hi hcl hpl hfood =>
    rcases (gamePlayerDie_deceased cfg s c cl hfood).clients with ⟨-, h⟩ | ⟨j, -, h⟩
    · rw [h]
    · rw [h, List.length_set]
  | move hpl hql => rw [(movePlayer_same _ _ _).rest]
  | _ => rfl

/-- What the states of a run are known for: every invariant that the steps rest on. -/
structure Ruled (width height seats : Nat) (s : Server) : Prop where
  wf : BuffersWF s
  placed : Placed width height s
  reg : Registered s
  apart : PlayersApart s
  slots : s.clients.length ≤ seats

theorem Ruled.step (h : Ruled width height seats s) (hw : 0 < width) (hh : 0 < height)
    (hstep : gameStep cfg s a = some s') : Ruled width height seats s' := by
  have hkeep : ∀ a s s', Effect cfg a s s' → BuffersWF s → (Placed width height s ∧ Registered s ∧ PlayersApart s ∧
      s.clients.length ≤ seats) → Placed width height s' ∧ Registered s' ∧ PlayersApart s' ∧
      s'.clients.length ≤ seats := by
    rintro a s s' he - ⟨hplaced, hreg, hapart, hslots⟩
    exact ⟨he.placed hw hh hplaced, he.registered hreg, he.playersApart hapart, by rw [he.slots_length]; exact hslots⟩
  obtain ⟨hwf, hplaced, hreg, hapart, hslots⟩ :=
    gameStep_invariant hkeep h.wf ⟨h.placed, h.reg, h.apart, h.slots⟩ hstep
  exact ⟨hwf, hplaced, hreg, hapart, hslots⟩

private theorem ruled_init (cfg : Config) (width height : Nat) (teams : List String) (nbClients : Nat)
    (counts : Nat → InventoryType → Nat) :
    Ruled width height nbClients (gameInit cfg width height teams nbClients counts) where
  wf := buffersWF_init _ _ _
  placed := placed_init _ _ _ _ _
  reg := registered_init _ _ _ _ _
  apart := playersApart_init _ _ _ _ _
  slots := Nat.le_of_eq List.length_replicate

/-- Every step of the game does with the board what the rules allow for its order. -/
private theorem Ruled.allows (h : Ruled width height seats s) (hw : 0 < width) (hh : 0 < height)
    (hstep : gameStep cfg s a = some s') :
    (gameRules width height seats).Allows (s.order cfg width height a) (s.board width height)
      (s'.board width height) := by
  have h' := h.step hw hh hstep
  cases a with
  | register conn fd teamName draw =>
    cases hstep
    exact h.placed.register hw hh h.reg h.slots conn fd teamName draw
  | execute conn fd cmd arg =>
    have heff := gameStep_effects h.wf hstep
    cases hstep
    have hsame : (gameExecuteCommand cfg s conn fd cmd arg).2.board width height = s.board width height := by
      refine h.placed.board_same h'.placed (fun q => ?_) fun t => ?_
      all_goals
        unfold gameExecuteCommand
        split
        · rfl
        · split
          · rfl
          · cases arg <;> rfl
    rw [hsame]
    exact .pass _
  | kill fd =>
    cases hstep
    exact h.placed.kill fd
  | playSlot chance i => exact h.placed.playSlot h'.placed h.reg h.apart hstep
  | playServer chance => exact h.placed.playServer h'.placed hw hh h.wf hstep
  | tick | accepted | send | takeRemovals | flush =>
    cases hstep
    exact .pass _

/-- A run of the game from such a state is a trace of the rules. -/
theorem Ruled.trace (h : Ruled width height seats s) (hw : 0 < width) (hh : 0 < height) {as : List GameAction}
    (hrun : run (gameStep cfg) s as = some s') :
    Trace (gameRules width height seats).Allows (s.board width height)
      (outputs (gameStep cfg) (fun s a => [s.order cfg width height a]) s as) (s'.board width height) := by
  have hG : Guarded (gameStep cfg) (fun _ _ => True) s as := .of_forall fun _ _ _ _ => trivial
  exact hG.trace (I := Ruled width height seats) (fun _ _ _ hstep _ hI => hI.step hw hh hstep)
    (fun _ _ _ hstep _ hI => .single (hI.allows hw hh hstep)) hrun h

/-- In every run of the game, every step does with the board what the rules allow for the order that the state and
the step give. -/
theorem game_follows_rules (cfg : Config) {width height : Nat} (hw : 0 < width) (hh : 0 < height)
    (teams : List String) (nbClients : Nat) (counts : Nat → InventoryType → Nat) (as : List GameAction) {s : Server}
    (h : run (gameStep cfg) (gameInit cfg width height teams nbClients counts) as = some s) :
    Trace (gameRules width height nbClients).Allows
      ((gameInit cfg width height teams nbClients counts).board width height)
      (outputs (gameStep cfg) (fun s a => [s.order cfg width height a])
        (gameInit cfg width height teams nbClients counts) as)
      (s.board width height) :=
  (ruled_init _ _ _ _ _ _).trace hw hh h

/-- Two players, the first of which completes an incantation. -/
def risenGame : List GameAction :=
  [.register 1 4 "red" ⟨0, 0, 0⟩, .register 2 5 "red" ⟨0, 0, 0⟩, .execute 1 4 "incantation" none, .playSlot {} 0,
    .tick 300, .playSlot {} 0]

theorem game_follows_rules_risen : ∃ s, run (gameStep shippedConfig)
      (gameInit shippedConfig 1 1 ["red"] 2 fun _ _ => 2) risenGame = some s ∧ s.levelOf 1 = some 2 ∧
    Trace (gameRules 1 1 2).Allows ((gameInit shippedConfig 1 1 ["red"] 2 fun _ _ => 2).board 1 1)
      (outputs (gameStep shippedConfig) (fun s a => [s.order shippedConfig 1 1 a])
        (gameInit shippedConfig 1 1 ["red"] 2 fun _ _ => 2) risenGame) (s.board 1 1) := by
  have hrun : ((run (gameStep shippedConfig) (gameInit shippedConfig 1 1 ["red"] 2 fun _ _ => 2) risenGame).bind
      fun s => s.levelOf 1) = some 2 := by decide +kernel
  obtain ⟨s, hs, hlevel⟩ := Option.bind_eq_some_iff.1 hrun
  exact ⟨s, hs, hlevel, game_follows_rules shippedConfig (by decide) (by decide) _ _ _ _ hs⟩

/-! ### Levels and seats -/

/-- Where the server is in a run of the machine, a run of the game leads. -/
private theorem game_of_machine_run {m m' : Machine} {as : List MachineAction}
    (h : run (machineStep cfg) m as = some m') : ∃ bs, run (gameStep cfg) m.server bs = some m'.server := by
  have hG : Guarded (machineStep cfg) (fun _ _ => True) m as := .of_forall fun _ _ _ _ => trivial
  refine hG.invariant (I := fun m' => ∃ bs, run (gameStep cfg) m.server bs = some m'.server) ?_ h ⟨[], rfl⟩
  rintro m₁ act m₂ hstep - ⟨bs, hbs⟩
  obtain ⟨cs, hcs, -⟩ := machineStep_server hstep
  exact ⟨bs ++ cs, by rw [run_append, hbs]; exact hcs⟩

/-- No player ever gets past a level that asks for more players than the server has slots. -/
theorem levels_need_seats (cfg : Config) {width height : Nat} (hw : 0 < width) (hh : 0 < height)
    (teams : List String) (nbClients : Nat) (counts : Nat → InventoryType → Nat) (as : List MachineAction)
    {m : Machine} (h : run (machineStep cfg) (machineInit cfg width height teams nbClients counts) as = some m)
    {p : Addr} {pl : Player} (hpl : m.server.playerHeap p = some pl) {level : Int} (h1 : 1 ≤ level)
    (hlevel : level < pl.level) : (levelReqs level).playerNumber ≤ nbClients := by
  obtain ⟨bs, hbs⟩ := game_of_machine_run h
  have hstart := ruled_init cfg width height teams nbClients counts
  have hempty : ∀ q, ((gameInit cfg width height teams nbClients counts).board width height).piece q = none := by
    intro q
    rw [hstart.placed.board_piece]
    rfl
  have hmanned := Rulebook.manned_of_trace (hstart.trace hw hh hbs) hempty
  have hend : Ruled width height nbClients m.server := by
    refine Guarded.invariant (G := fun _ _ => True) (fun _ _ _ hstep _ hI => ?_) (.of_forall fun _ _ _ _ => trivial)
      hbs hstart
    exact hI.step hw hh hstep
  exact hmanned.crew p _ (hend.placed.board_of_player hpl) level h1 hlevel

theorem levels_need_seats_two : ∃ (m : Machine) (pl : Player),
    run (machineStep shippedConfig) ritualMachine
      (enters 4 ++ enters 5 ++ scanPass [4] [asks "incantation"] 0 ++
        [.tick 300, .lookupEnd, .select [], .playSlot {}]) = some m ∧
    m.server.playerHeap 1 = some pl ∧ 1 < pl.level ∧ (levelReqs 1).playerNumber ≤ 2 := by
  have hrun : ((run (machineStep shippedConfig) ritualMachine
      (enters 4 ++ enters 5 ++ scanPass [4] [asks "incantation"] 0 ++
        [.tick 300, .lookupEnd, .select [], .playSlot {}])).bind fun m =>
      (m.server.playerHeap 1).map Player.level) = some 2 := by decide +kernel
  obtain ⟨m, hm, hmap⟩ := Option.bind_eq_some_iff.1 hrun
  obtain ⟨pl, hpl, hlevel⟩ := Option.map_eq_some_iff.1 hmap
  have hup : 1 < pl.level := by
    rw [hlevel]
    decide
  exact ⟨m, pl, hm, hpl, hup, levels_need_seats shippedConfig (by decide) (by decide) _ _ _ _ hm hpl (by decide) hup⟩

end Zappy

import Zappy.Answers
import Zappy.ClientState
import Zappy.FlowControl
import Mathlib.Tactic.IntervalCases

/-!
# What the client records of its views (`Player.java`, `World.java`)

The client has the setters of its level, and calls neither: it takes every view for one of level 1.  The server builds
a view for the level of its player, which an incantation on its tile raises.  As long as it has raised nobody whose
views go to the client, each view has as many entries as the client has offsets, and all of them are recorded.
-/

namespace Zappy

open Run Stateful Traverse

variable {cfg : Config} {K : Conn} {width height : Nat} {s s' : Server} {pl pl' : Player} {msg : Json}
  {advice : Advice} {c : JavaClient}

/-! ### The map after a view -/

section Map

variable {w w' : World} {px py direction level : Int} {data : List (List String)}

private theorem rotate_isSome (dx dy : Int) {direction : Int} (h₀ : 0 ≤ direction) (h₄ : direction < 4) :
    (rotate dx dy direction).isSome := by
  interval_cases direction <;> rfl

theorem length_offsets (level : Int) : (generateRelativeOffsets level).length = (level + 1).toNat ^ 2 := by
  rw [generateRelativeOffsets_eq, List.length_map, viewPlaces, length_rows]

private theorem overwritten_isSome (hw : 0 < w.width) (hh : 0 < w.height) (h₀ : 0 ≤ direction) (h₄ : direction < 4)
    (px py : Int) {i : Nat} (hi : i < (generateRelativeOffsets level).length) :
    ∃ tile, w.overwritten px py direction level i = some tile := by
  unfold World.overwritten
  rw [List.getElem?_eq_getElem hi, Option.bind_some]
  obtain ⟨rotated, hrotated⟩ := Option.isSome_iff_exists.1 (rotate_isSome _ _ h₀ h₄)
  rw [hrotated, Option.bind_some, getTile_eq w hw hh]
  exact ⟨_, rfl⟩

/-- Which tile is overwritten depends on the size of the map only. -/
private theorem overwritten_congr (hwidth : w'.width = w.width) (hheight : w'.height = w.height) (i : Nat) :
    w'.overwritten px py direction level i = w.overwritten px py direction level i := by
  simp only [World.overwritten, World.getTile, hwidth, hheight]

/-- The map `w'` after the first `n` entries: each is on its tile, unless an entry after it is about the same tile. -/
structure RecordedUpTo (w : World) (px py direction level : Int) (data : List (List String)) (n : Nat) (w' : World) :
    Prop where
  width : w'.width = w.width
  height : w'.height = w.height
  entries : ∀ i < n, ∃ tile, w.overwritten px py direction level i = some tile ∧
    ((∃ j < n, i < j ∧ w.overwritten px py direction level j = some tile) ∨
      ClientTile.update (data.getD i []) = some (w'.grid tile.2 tile.1))

theorem RecordedUpTo.turn {n : Nat} {w₁ : World} (h : RecordedUpTo w px py direction level data n w₁) {tile : Int × Int}
    (htile : w.overwritten px py direction level n = some tile) {new : ClientTile}
    (hnew : ClientTile.update (data.getD n []) = some new) :
    ∃ w₂, w₁.updateTile tile (data.getD n []) = some w₂ ∧ RecordedUpTo w px py direction level data (n + 1) w₂ := by
  unfold World.updateTile
  rw [hnew, Option.map_some]
  refine ⟨_, rfl, h.width, h.height, fun i hi => ?_⟩
  rcases Nat.lt_succ_iff_lt_or_eq.1 hi with hi | rfl
  · obtain ⟨tile', htile', hentry⟩ := h.entries i hi
    refine ⟨tile', htile', ?_⟩
    by_cases he : tile' = tile
    · exact Or.inl ⟨n, Nat.lt_succ_self n, hi, he ▸ htile⟩
    · rcases hentry with ⟨j, hj, hij, htile''⟩ | hentry
      · exact Or.inl ⟨j, Nat.lt_succ_of_lt hj, hij, htile''⟩
      · refine Or.inr ?_
        rw [hentry]
        dsimp only
        by_cases hy : tile'.2 = tile.2
        · have hx : tile'.1 ≠ tile.1 := fun hx => he (Prod.ext hx hy)
          rw [hy, Function.update_self, Function.update_of_ne hx]
        · rw [Function.update_of_ne hy]
  · refine ⟨tile, htile, Or.inr ?_⟩
    dsimp only
    rw [hnew, Function.update_self, Function.update_self]

/-- A view with no more entries than there are offsets is recorded. -/
theorem updateVisibleTiles_recorded (hw : 0 < w.width) (hh : 0 < w.height) (h₀ : 0 ≤ direction) (h₄ : direction < 4)
    (px py : Int) (hlength : data.length ≤ (generateRelativeOffsets level).length)
    (hnames : ∀ contents ∈ data, ∀ item ∈ contents, (Resource.fromString item).isSome) :
    ∃ w', w.updateVisibleTiles px py direction level data = some w' ∧
      RecordedUpTo w px py direction level data data.length w' := by
  suffices hloop : ∀ n ≤ data.length, ∃ w', (List.range n).foldlM (fun (w : World) i =>
      (w.overwritten px py direction level i).bind fun tile => w.updateTile tile (data.getD i [])) w = some w' ∧
      RecordedUpTo w px py direction level data n w' from hloop data.length le_rfl
  intro n hn
  induction n with
  | zero => exact ⟨w, rfl, rfl, rfl, fun i hi => absurd hi (Nat.not_lt_zero i)⟩
  | succ n ih =>
    obtain ⟨w₁, hrun, hrecorded⟩ := ih (Nat.le_of_succ_le hn)
    obtain ⟨tile, htile⟩ := overwritten_isSome hw hh h₀ h₄ px py (Nat.lt_of_lt_of_le hn hlength)
    have hmem : data.getD n [] ∈ data := by
      rw [List.getD_eq_getElem?_getD, List.getElem?_eq_getElem hn]
      exact List.getElem_mem _
    obtain ⟨new, hnew⟩ := Option.isSome_iff_exists.1 (tileUpdate_isSome (hnames _ hmem))
    obtain ⟨w₂, hupdate, hrecorded'⟩ := hrecorded.turn htile hnew
    refine ⟨w₂, ?_, hrecorded'⟩
    rw [List.range_succ, List.foldlM_append, hrun]
    simp only [List.foldlM_cons, List.foldlM_nil, Option.bind_eq_bind, Option.bind_some,
      overwritten_congr hrecorded.width hrecorded.height, htile, hupdate, Option.pure_def]

end Map

/-! ### The answer to `voir` -/

/-- The message that `m_command_voir` builds for the player `pl`. -/
def voirAnswer (s : Server) (pl : Player) : Option Json := (visionOf s pl).map fun vision =>
  [("type", .str "response"), ("cmd", .str "voir"), ("vision", .vision vision)]

/-- A view has one entry for each offset of its level, and every entry names resources. -/
theorem voirAnswer_spec (h : voirAnswer s pl = some msg) : ∃ data,
    msg = [("type", .str "response"), ("cmd", .str "voir"), ("vision", .vision data)] ∧
    data.length = (pl.level + 1).toNat ^ 2 ∧
    ∀ contents ∈ data, ∀ item ∈ contents, (Resource.fromString item).isSome := by
  obtain ⟨data, hdata, rfl⟩ := Option.map_eq_some_iff.1 h
  refine ⟨data, rfl, ?_, fun contents hcontents item hitem => ?_⟩
  · rw [length_eq_of_mapM hdata, visionTiles, List.length_map, viewPlaces, length_rows]
  · obtain ⟨i, hi⟩ := List.getElem?_of_mem hcontents
    rw [mapM_getElem? hdata i] at hi
    obtain ⟨pos, -, hbuild⟩ := Option.bind_eq_some_iff.1 hi
    exact buildTileVision_names hbuild hitem

/-- The level can be read off the message. -/
private theorem voirAnswer_level (h : voirAnswer s pl = some msg) (h' : voirAnswer s' pl' = some msg)
    (hone : pl.level = 1) : pl'.level = 1 := by
  obtain ⟨data, rfl, hlength, -⟩ := voirAnswer_spec h
  obtain ⟨data', he, hlength', -⟩ := voirAnswer_spec h'
  simp only [List.cons.injEq, Prod.mk.injEq, JsonValue.vision.injEq, and_true, true_and] at he
  rw [← he, hlength, hone] at hlength'
  have htwo : (pl'.level + 1).toNat = 2 := by
    have hle : (pl'.level + 1).toNat ^ 2 = 2 ^ 2 := hlength'.symm
    exact Nat.pow_left_injective (by decide : (2 : Nat) ≠ 0) hle
  omega

/-! ### The wire -/

/-- The connection was sent a welcome. -/
def Welcomed (msgs : List Json) : Prop := ∃ msg ∈ msgs, msg.kind = .welcome

theorem Welcomed.next {msgs : List Json} (h : Welcomed (msgs ++ [msg])) : Welcomed msgs ∨ msg.kind = .welcome := by
  obtain ⟨first, hfirst, hkind⟩ := h
  rcases List.mem_append.1 hfirst with hfirst | hfirst
  · exact Or.inl ⟨first, hfirst, hkind⟩
  · rw [List.mem_singleton.1 hfirst] at hkind
    exact Or.inr hkind

/-- Every message has `Q`, or it has `R` and comes after a welcome. -/
def AfterWelcome (Q R : Json → Prop) (msgs : List Json) : Prop :=
  ∀ n msg, msgs[n]? = some msg → Q msg ∨ R msg ∧ Welcomed (msgs.take n)

theorem AfterWelcome.append {Q R : Json → Prop} {msgs new : List Json} (h : AfterWelcome Q R msgs)
    (hnew : ∀ msg ∈ new, Q msg ∨ R msg ∧ Welcomed msgs) : AfterWelcome Q R (msgs ++ new) := by
  intro n msg hmsg
  by_cases hn : n < msgs.length
  · rw [List.getElem?_append_left hn] at hmsg
    rw [List.take_append_of_le_length hn.le]
    exact h n msg hmsg
  · have hn : msgs.length ≤ n := Nat.le_of_not_lt hn
    rw [List.getElem?_append_right hn] at hmsg
    refine (hnew msg (List.mem_of_getElem? hmsg)).imp_right fun ⟨hR, first, hfirst, hkind⟩ => ⟨hR, first, ?_, hkind⟩
    rw [List.take_append, List.take_of_length_le hn]
    exact List.mem_append_left _ hfirst

private theorem kind_welcome (h : msg.kind = .welcome) : msg.lookup "type" = some (.str "welcome") := by
  unfold Json.kind at h
  split at h
  · cases h
  · assumption
  · unfold responseKind at h
    split at h
    · split_ifs at h
    · cases h
  · split at h <;> cases h
  · cases h
  · cases h
  · cases h

theorem textOr_eq {key text : String} (h : msg.lookup key = some (.str text)) (default : String) :
    msg.textOr key default = some text := by
  simp [Json.textOr, Json.has, Json.text, h]

theorem answered_eq {cmd : String} (htype : msg.lookup "type" = some (.str "response"))
    (hcmd : msg.lookup "cmd" = some (.str cmd)) : msg.answered = some cmd := by
  simp [Json.answered, textOr_eq htype, Json.has, Json.text, hcmd]

/-- If it is the welcome, it gives the size of the map. -/
def Greets (width height : Nat) (msg : Json) : Prop := msg.textOr "type" "response" = some "welcome" →
  ∃ (s : Server) (n : Int), s.mapX = width ∧ s.mapY = height ∧ msg = welcome s n

theorem Greets.of_response (h : msg.lookup "type" = some (.str "response")) : Greets width height msg := by
  intro hwelcome
  rw [textOr_eq h] at hwelcome
  exact absurd (Option.some.inj hwelcome) (by decide)

private theorem plain_type (h : msg.kind = .bienvenue ∨ msg.kind = .error ∨ msg.kind = .remark) :
    ∃ type, msg.lookup "type" = some (.str type) ∧ type ∉ ["response", "cmd", "welcome"] := by
  unfold Json.kind at h
  split at h
  · exact ⟨_, ‹_›, by decide⟩
  · simp at h
  · unfold responseKind at h
    split at h
    · split_ifs at h <;> simp at h
    · simp at h
  · exact ⟨_, ‹_›, by decide⟩
  · exact ⟨_, ‹_›, by decide⟩
  · exact ⟨_, ‹_›, by decide⟩
  · simp at h

/-- An idle message is no answer that the client takes over. -/
theorem Idle.answered (h : Idle width height msg) {cmd : String} (hcmd : cmd ∈ informing) :
    msg.answered ≠ some cmd := by
  cases h with
  | aside h =>
    obtain ⟨cmd', arg, status, rfl, hcmd'⟩ := h
    have hanswered : (response cmd' arg status).answered = some cmd' := rfl
    rw [hanswered]
    rintro ⟨⟩
    exact hcmd' hcmd
  | plain h =>
    obtain ⟨type, htype, hnot⟩ := plain_type h
    simp only [List.mem_cons, List.not_mem_nil, or_false, not_or] at hnot
    simp [Json.answered, textOr_eq htype, hnot]
  | welcome s n hx hy h =>
    have hanswered : (Zappy.welcome s n).answered = none := rfl
    simp [h, hanswered]

theorem Idle.greets (h : Idle width height msg) : Greets width height msg := by
  cases h with
  | aside h =>
    obtain ⟨cmd, arg, status, rfl, -⟩ := h
    exact .of_response rfl
  | plain h =>
    obtain ⟨type, htype, hnot⟩ := plain_type h
    intro hwelcome
    rw [textOr_eq htype] at hwelcome
    simp only [List.mem_cons, List.not_mem_nil, or_false, not_or] at hnot
    exact absurd (Option.some.inj hwelcome) hnot.2.2
  | welcome s n hx hy h => exact fun _ => ⟨s, n, hx, hy, h⟩

/-- No view, and if it is the welcome, it gives the size of the map. -/
structure Unseeing (width height : Nat) (msg : Json) : Prop where
  answered : msg.answered ≠ some "voir"
  greets : Greets width height msg

/-! ### The commands whose answers are taken over -/

/-- Such a command sends one message, its answer, to its player. -/
theorem runCommand_answer {fuel : Nat} {p : Addr} {ev : Event} {type : CommandType} (hinforms : type.informs = true)
    (hout : s.outbox = []) (h : runCommand cfg fuel s p pl ev type = some s') :
    ∃ msg, s'.outbox = [(pl.id, msg)] ∧ msg.lookup "type" = some (.str "response") ∧
      msg.lookup "cmd" = some (.str type.getName) ∧ (type = .voir → voirAnswer s pl = some msg) := by
  have hreply : ∀ (s₁ : Server) (cmd : String) (arg status : Option String), s₁.outbox = [] →
      type.getName = cmd → type ≠ .voir → ∃ msg, (s₁.createResponseToCommand pl.id cmd arg status).outbox =
        [(pl.id, msg)] ∧ msg.lookup "type" = some (.str "response") ∧
        msg.lookup "cmd" = some (.str type.getName) ∧ (type = .voir → voirAnswer s pl = some msg) := by
    rintro s₁ cmd arg status hs₁ rfl hvoir
    refine ⟨response type.getName arg status, ?_, rfl, rfl, fun he => absurd he hvoir⟩
    rw [Server.createResponseToCommand, Server.send, hs₁, List.nil_append]
  have htransfer : ∀ (cmd : String) (add : Int), type.getName = cmd → type ≠ .voir →
      ∃ msg, (commandTransfer cmd add s p pl ev.arg).outbox = [(pl.id, msg)] ∧
        msg.lookup "type" = some (.str "response") ∧ msg.lookup "cmd" = some (.str type.getName) ∧
        (type = .voir → voirAnswer s pl = some msg) := by
    intro cmd add hname hvoir
    unfold commandTransfer
    split
    · exact hreply s cmd _ _ hout hname hvoir
    split
    · exact hreply s cmd _ _ hout hname hvoir
    split
    · exact hreply s cmd _ _ hout hname hvoir
    · rename_i s₁ hmove
      refine hreply s₁ cmd _ _ ?_ hname hvoir
      simp only [helperItemsToTiles] at hmove
      split_ifs at hmove <;> cases hmove <;> exact hout
  cases type with
  | voir =>
    simp only [runCommand, commandVoir_eq, Option.map_eq_some_iff] at h
    obtain ⟨vision, hvision, rfl⟩ := h
    refine ⟨_, by rw [Server.send, hout, List.nil_append], rfl, rfl, fun _ => ?_⟩
    rw [voirAnswer, hvision, Option.map_some]
  | inventaire =>
    cases h
    exact ⟨_, by rw [commandInventaire, Server.send, hout, List.nil_append], rfl, rfl, by simp⟩
  | prend =>
    cases h
    exact htransfer "prend" (-1) rfl (by simp)
  | pose =>
    cases h
    exact htransfer "pose" 1 rfl (by simp)
  | _ => cases hinforms

/-! ### The client -/

/-- What the client knows, with a map of the right size, and with a place on it if it has one. -/
structure Located (width height : Nat) (k : Known) : Prop where
  level : k.level = 1
  world : ∀ w, k.world = some w → w.width = width ∧ w.height = height
  position : ∀ pos, k.position = some pos → 0 ≤ pos.direction ∧ pos.direction < 4
  both : k.world.isSome = true → k.position.isSome = true

private theorem turned_direction {pos pos' : ClientPosition} (h : 0 ≤ pos.direction ∧ pos.direction < 4)
    (hmove : pos' ∈ [pos.moveForward, pos.turnRight, pos.turnLeft]) : 0 ≤ pos'.direction ∧ pos'.direction < 4 := by
  simp only [List.mem_cons, List.not_mem_nil, or_false] at hmove
  rcases hmove with rfl | rfl | rfl
  · unfold ClientPosition.moveForward
    split <;> exact h
  · have hpos : 0 ≤ pos.direction + 1 := by omega
    exact ⟨Int.tmod_nonneg 4 hpos, Int.tmod_lt_of_pos _ (by decide)⟩
  · have hpos : 0 ≤ pos.direction + 3 := by omega
    exact ⟨Int.tmod_nonneg 4 hpos, Int.tmod_lt_of_pos _ (by decide)⟩

/-- The welcome gives the client a map, which no message takes away. -/
theorem handleResponse_world (advice : Advice) (h : Greets width height msg)
    (hworld : c.world.isSome ∨ msg.kind = .welcome) : (finalState (handleResponse advice msg) c).world.isSome := by
  by_cases hwelcome : msg.textOr "type" "response" = some "welcome"
  · obtain ⟨s, n, -, -, rfl⟩ := h hwelcome
    exact handleResponse_welcomed (I := fun k => k.world.isSome) s n rfl
  · have hnot : msg.kind ≠ .welcome := fun hkind => hwelcome (textOr_eq (kind_welcome hkind) _)
    have hkeep : Keeps (fun c => c.known.world.isSome) (handleResponse advice msg) :=
      handleResponse_keeps (I := fun k => k.world.isSome) hwelcome fun cmd _ =>
        handleAnswer_keeps (I := fun k => k.world.isSome) (fun _ _ _ _ _ _ hk => hk) (fun _ _ _ _ => rfl)
          fun _ _ _ hk => hk
    exact hkeep c (hworld.resolve_right hnot)

/-- A message that is no view leaves the client located. -/
private theorem handleResponse_unseeing (advice : Advice) (h : Unseeing width height msg)
    (hloc : Located width height c.known) :
    Located width height (finalState (handleResponse advice msg) c).known := by
  by_cases hwelcome : msg.textOr "type" "response" = some "welcome"
  · obtain ⟨s, n, hx, hy, rfl⟩ := h.greets hwelcome
    refine handleResponse_welcomed (I := Located width height) s n ⟨hloc.level, ?_, ?_, ?_⟩
    · rintro w ⟨⟩
      exact ⟨by rw [hx], by rw [hy]⟩
    · rintro pos ⟨⟩
      exact ⟨le_refl (0 : Int), (by decide : (0 : Int) < 4)⟩
    · exact fun _ => rfl
  · refine handleResponse_keeps (I := Located width height) hwelcome (fun cmd hcmd => handleAnswer_keeps
      (I := Located width height) ?_ ?_ ?_) c hloc
    · rintro - k pos pos' hpos hmove hk
      refine ⟨hk.level, hk.world, ?_, fun _ => rfl⟩
      rintro pos'' ⟨⟩
      exact turned_direction (hk.position pos hpos) hmove
    · rintro rfl
      exact absurd hcmd h.answered
    · rintro - k i hk
      exact ⟨hk.level, hk.world, hk.position, hk.both⟩

/-- A view that can be recorded becomes the map. -/
private theorem handleVoirResponse_known {data : List (List String)} {w w' : World} {pos : ClientPosition}
    (hvision : msg.lookup "vision" = some (.vision data)) (hw : c.world = some w) (hpos : c.position = some pos)
    (hseen : w.updateVisibleTiles pos.x pos.y pos.direction c.level data = some w') :
    (finalState (handleVoirResponse advice msg) c).known = { c.known with world := some w' } := by
  unfold handleVoirResponse
  rw [hvision]
  dsimp only
  rw [finalState_get_bind, hw, hpos]
  simp only [orThrow, pure_bind, hseen]
  have hadvised : Keeps (fun c₁ => c₁.known = { c.known with world := some w' })
      (orThrow advice >>= fun cmds => addCommands cmds) :=
    .bind (orThrow_keeps _) fun cmds => (addCommands_known cmds).keeps_known (I := fun k => k = _)
  exact hadvised { c with world := some w' } rfl

private theorem handleResponse_voir (advice : Advice) {data : List (List String)} {w w' : World} {pos : ClientPosition}
    (hw : c.world = some w) (hpos : c.position = some pos)
    (hseen : w.updateVisibleTiles pos.x pos.y pos.direction c.level data = some w') :
    (finalState (handleResponse advice [("type", .str "response"), ("cmd", .str "voir"), ("vision", .vision data)])
      c).known = { c.known with world := some w' } := by
  refine handleResponse_answer (I := fun k => k = { c.known with world := some w' }) rfl rfl (by decide) ?_
  simp only [handleAnswer]
  exact handleVoirResponse_known (c := { c with pendingResponses := c.pendingResponses - 1 }) rfl hw hpos hseen

/-! ### Runs -/

/-- A view of a player of level 1. -/
def FirstLevel (msg : Json) : Prop := ∃ s pl, voirAnswer s pl = some msg ∧ pl.level = 1

/-- A `voir` whose answer goes to `K` is executed for a player that no incantation has raised, after `K` was
welcomed. -/
def LooksUnraised (K : Conn) (d : Duplex) : DuplexAction → Prop
  | .server act => ∀ p pl, d.machine.calls act = some (.voir, p) → d.machine.server.playerHeap p = some pl →
      d.machine.session pl.id = some K → pl.level = 1 ∧ Welcomed (d.machine.wireTo K)
  | _ => True

/-- The client `c` records the view `msg` and becomes `c'`: its level is the one the view was built for, there is one
offset for each entry, and every entry is on its map then. -/
structure ViewRecorded (msg : Json) (c c' : JavaClient) : Prop where
  built : ∃ s pl, voirAnswer s pl = some msg
  level : ∀ s pl, voirAnswer s pl = some msg → c.level = pl.level
  recorded : ∃ data w w' pos, msg.lookup "vision" = some (.vision data) ∧ c.world = some w ∧ c.position = some pos ∧
    data.length = (generateRelativeOffsets c.level).length ∧
    w.updateVisibleTiles pos.x pos.y pos.direction c.level data = some w' ∧ c'.world = some w' ∧
    RecordedUpTo w pos.x pos.y pos.direction c.level data data.length w'

/-- If the step processes an answer to `voir`, the view is recorded. -/
def RecordsViews (K : Conn) (d : Duplex) (act : DuplexAction) (d' : Duplex) : Prop :=
  match act with
  | .message _ => ∀ msg, (d.machine.wireTo K)[d.read]? = some msg → msg.answered = some "voir" →
      ViewRecorded msg d.client d'.client
  | _ => True

/-- What holds between the steps: the views on the wire are of level 1 and come after a welcome, and the client is
located once it has processed one. -/
structure ViewInv (width height : Nat) (K : Conn) (d : Duplex) : Prop where
  wf : BuffersWF d.machine.server
  placed : Placed width height d.machine.server
  outbox : d.machine.server.outbox = []
  read : d.read ≤ (d.machine.wireTo K).length
  wire : AfterWelcome (Unseeing width height) FirstLevel (d.machine.wireTo K)
  located : Located width height d.client.known
  welcomed : Welcomed (d.processed K) → d.client.world.isSome

variable {d d' : Duplex} {act : MachineAction}

theorem ViewInv.server (hw : 0 < width) (hh : 0 < height) (h : ViewInv width height K d)
    (hG : LooksUnraised K d (.server act)) (hstep : duplexStep cfg K d (.server act) = some d') :
    ViewInv width height K d' := by
  obtain ⟨m, n, hm, rfl, -, -⟩ := duplexStep_server hstep
  have hserver : BuffersWF m.server ∧ Placed width height m.server :=
    (machineStep_server hm).invariant (I := fun s => BuffersWF s ∧ Placed width height s)
      (fun s a s' hs _ hI => gameStep_invariant (fun _ _ _ he _ hI => he.placed hw hh hI) hI.1 hI.2 hs)
      ⟨h.wf, h.placed⟩
  have hwire : AfterWelcome (Unseeing width height) FirstLevel (m.wireTo K) := by
    cases machineStep_writes h.wf h.outbox K hm with
    | idle new hnew hidle =>
      rw [hnew]
      refine h.wire.append fun msg hmsg => Or.inl ?_
      have hmsg := hidle msg hmsg
      rw [h.placed.mapX, h.placed.mapY] at hmsg
      exact ⟨hmsg.answered (by decide), hmsg.greets⟩
    | @answer type p pl c b ev fuel s₂ hcalls hinforms hpl hrun hheap hnew =>
      rw [hnew]
      refine h.wire.append fun msg hmsg => ?_
      have hempty : (d.machine.server.setClientBuffer c b).outbox = [] := h.outbox
      obtain ⟨answer, hout, htype, hcmd, hvoir⟩ := runCommand_answer hinforms hempty hrun
      obtain ⟨e, he, hsession, rfl⟩ := mem_toConn hmsg
      rw [hout, List.mem_singleton] at he
      subst he
      by_cases hlooks : type = .voir
      · subst hlooks
        obtain ⟨hone, hwelcomed⟩ := hG p pl hcalls hpl hsession
        exact Or.inr ⟨⟨_, pl, hvoir rfl, hone⟩, hwelcomed⟩
      · refine Or.inl ⟨fun hsees => ?_, .of_response htype⟩
        rw [answered_eq htype hcmd] at hsees
        cases type <;> first | exact hlooks rfl | exact absurd hsees (by decide)
  have hprefix := machineStep_wire (K := K) hm
  constructor
  case wf => exact hserver.1
  case placed => exact hserver.2
  case outbox => exact machineStep_outbox h.outbox hm
  case read => exact h.read.trans hprefix.length_le
  case wire => exact hwire
  case located => exact h.located
  case welcomed =>
    rw [processed_append h.read hprefix]
    exact h.welcomed

/-- The client processes a view of level 1. -/
theorem ViewInv.view (hw : 0 < width) (hh : 0 < height) (h : ViewInv width height K d) (hfirst : FirstLevel msg)
    (hwelcomed : Welcomed (d.processed K)) (advice : Advice) :
    ViewRecorded msg d.client (finalState (handleResponse advice msg) d.client) ∧
      ∃ w w', d.client.world = some w ∧ w'.width = w.width ∧ w'.height = w.height ∧
        (finalState (handleResponse advice msg) d.client).known = { d.client.known with world := some w' } := by
  obtain ⟨s, pl, hbuilt, hone⟩ := hfirst
  obtain ⟨w, hworld⟩ := Option.isSome_iff_exists.1 (h.welcomed hwelcomed)
  obtain ⟨pos, hpos⟩ := Option.isSome_iff_exists.1 (h.located.both (h.welcomed hwelcomed))
  obtain ⟨hwidth, hheight⟩ := h.located.world w hworld
  obtain ⟨h₀, h₄⟩ := h.located.position pos hpos
  obtain ⟨data, rfl, hlength, hnames⟩ := voirAnswer_spec hbuilt
  have hlevel : d.client.level = 1 := h.located.level
  have hoffsets : data.length = (generateRelativeOffsets d.client.level).length := by
    rw [length_offsets, hlevel, hlength, hone]
  obtain ⟨w', hseen, hrecorded⟩ := updateVisibleTiles_recorded (w := w) (by omega) (by omega) h₀ h₄ pos.x pos.y
    hoffsets.le hnames
  have hknown := handleResponse_voir advice hworld hpos hseen
  refine ⟨⟨⟨s, pl, hbuilt⟩, fun s' pl' hbuilt' => ?_, data, w, w', pos, rfl, hworld, hpos, hoffsets, hseen, ?_,
    hrecorded⟩, w, w', hworld, hrecorded.width, hrecorded.height, hknown⟩
  · rw [hlevel, voirAnswer_level hbuilt hbuilt' hone]
  · exact congrArg Known.world hknown

theorem ViewInv.message (hw : 0 < width) (hh : 0 < height) (h : ViewInv width height K d)
    (hstep : duplexStep cfg K d (.message advice) = some d') : ViewInv width height K d' := by
  obtain ⟨msg, -, hmsg, rfl⟩ := duplexStep_message hstep
  have hclient : Located width height (finalState (handleResponse advice msg) d.client).known ∧
      (Welcomed (d.processed K ++ [msg]) → (finalState (handleResponse advice msg) d.client).world.isSome) := by
    rcases h.wire d.read msg hmsg with hunseeing | ⟨hfirst, hwelcomed⟩
    · exact ⟨handleResponse_unseeing advice hunseeing h.located, fun hall =>
        handleResponse_world advice hunseeing.greets (hall.next.imp_left h.welcomed)⟩
    · obtain ⟨-, w, w', hworld, hwidth, hheight, hknown⟩ := h.view hw hh hfirst hwelcomed advice
      rw [hknown]
      refine ⟨⟨h.located.level, ?_, h.located.position, fun _ => ?_⟩, fun _ => ?_⟩
      · rintro _ ⟨⟩
        rw [hwidth, hheight]
        exact h.located.world w hworld
      · exact h.located.both (h.welcomed hwelcomed)
      · have hworld' : (finalState (handleResponse advice msg) d.client).world = some w' :=
          congrArg Known.world hknown
        rw [hworld']
        rfl
  constructor
  case wf => exact h.wf
  case placed => exact h.placed
  case outbox => exact h.outbox
  case read => exact (List.getElem?_eq_some_iff.1 hmsg).1
  case wire => exact h.wire
  case located => exact hclient.1
  case welcomed =>
    rw [processed_next hmsg]
    exact hclient.2

theorem ViewInv.step {a : DuplexAction} (hw : 0 < width) (hh : 0 < height) (h : ViewInv width height K d)
    (hG : LooksUnraised K d a) (hstep : duplexStep cfg K d a = some d') : ViewInv width height K d' := by
  cases a with
  | server act => exact h.server hw hh hG hstep
  | message advice => exact h.message hw hh hstep
  | close =>
    cases hstep
    exact ⟨h.wf, h.placed, h.outbox, h.read, h.wire, h.located, h.welcomed⟩
  | error =>
    cases hstep
    exact ⟨h.wf, h.placed, h.outbox, h.read, h.wire, h.located, h.welcomed⟩

theorem viewInv_init (cfg : Config) (width height : Nat) (teams : List String) (nbClients : Nat)
    (counts : Nat → InventoryType → Nat) (teamName : String) (K : Conn) :
    ViewInv width height K (duplexInit cfg width height teams nbClients counts teamName) where
  wf := buffersWF_init _ _ _
  placed := placed_init _ _ _ _ _
  outbox := rfl
  read := Nat.le_refl _
  wire := fun n msg hmsg => by cases hmsg
  located := by
    refine ⟨rfl, ?_, ?_, ?_⟩
    · intro w hw
      cases hw
    · intro pos hpos
      cases hpos
    · intro hworld
      cases hworld
  welcomed := by
    rintro ⟨msg, hmsg, -⟩
    cases hmsg

/-- In every run in which each `voir` whose answer goes to the connection of the client is executed for a player
that no incantation has raised, after the welcome of the connection: whenever the client processes the answer to a
`voir`, its level is the one that the server has built the answer for, and every entry is recorded. -/
theorem views_recorded (cfg : Config) {width height : Nat} (hw : 0 < width) (hh : 0 < height) (teams : List String)
    (nbClients : Nat) (counts : Nat → InventoryType → Nat) (teamName : String) (K : Conn) (as : List DuplexAction)
    (hG : Guarded (duplexStep cfg K) (LooksUnraised K)
      (duplexInit cfg width height teams nbClients counts teamName) as) :
    AllSteps (duplexStep cfg K) (RecordsViews K) (duplexInit cfg width height teams nbClients counts teamName) as := by
  refine hG.allSteps (I := ViewInv width height K) (fun d a d' hstep hG h => h.step hw hh hG hstep)
    (fun d a d' hstep _ h => ?_) (viewInv_init ..)
  cases a with
  | message advice =>
    intro msg hmsg hvoir
    obtain ⟨msg', -, hmsg', rfl⟩ := duplexStep_message hstep
    obtain rfl := Option.some.inj (hmsg.symm.trans hmsg')
    rcases h.wire d.read msg hmsg with hunseeing | ⟨hfirst, hwelcomed⟩
    · exact absurd hvoir hunseeing.answered
    · exact (h.view hw hh hfirst hwelcomed advice).1
  | _ => exact trivial

/-- A test for `LooksUnraised`. -/
def looksTest (K : Conn) (d : Duplex) : DuplexAction → Bool
  | .server act => match d.machine.calls act with
    | some (.voir, p) => (d.machine.server.playerHeap p).all fun pl =>
      decide (d.machine.session pl.id ≠ some K) ||
        (decide (pl.level = 1) && (d.machine.wireTo K).any fun msg => decide (msg.kind = .welcome))
    | _ => true
  | _ => true

private theorem looksUnraised_of_test (d : Duplex) (a : DuplexAction) (h : looksTest K d a) : LooksUnraised K d a := by
  cases a with
  | server act =>
    intro p pl hcalls hpl hsession
    simp only [looksTest, hcalls, hpl, Option.all_some, Bool.or_eq_true, Bool.and_eq_true, decide_eq_true_eq,
      List.any_eq_true] at h
    exact h.resolve_left fun hnot => hnot hsession
  | _ => exact trivial

/-- A map of one tile with a stone of each kind. -/
def stoneDuplex : Duplex := duplexInit shippedConfig 1 1 ["red"] 2 (fun _ _ => 1) "red"

/-- Another player enters. -/
def otherEnters : List DuplexAction :=
  (scanPass [3] [.accept 5] 0 ++ handshakePass ++ scanPass [5] [.receive loginMessage ⟨0, 0, 0⟩] 0).map .server

/-- The server receives the `voir` that the client sends when it is welcomed, and answers it at the time `t`. -/
def looked (t : Nat) : List DuplexAction :=
  (scanPass [4] [.receive (.text (some { type := "cmd", cmd := "voir" })) ⟨0, 0, 0⟩] 0 ++ idlePass t).map .server

theorem views_recorded_alone : ∃ d d' msg,
    run (duplexStep shippedConfig 1) stoneDuplex (clientEnters ++ otherEnters ++ looked 7) = some d ∧
    duplexStep shippedConfig 1 d (.message (some [])) = some d' ∧ (d.machine.wireTo 1)[d.read]? = some msg ∧
    msg.answered = some "voir" ∧ ViewRecorded msg d.client d'.client := by
  have hrun : ((run (duplexStep shippedConfig 1) stoneDuplex (clientEnters ++ otherEnters ++ looked 7)).bind fun d =>
      (duplexStep shippedConfig 1 d (.message (some []))).bind fun _ => ((d.machine.wireTo 1)[d.read]?).map
        Json.answered) = some (some "voir") := by decide +kernel
  have hguard : testGuard (duplexStep shippedConfig 1) (looksTest 1) stoneDuplex
      (clientEnters ++ otherEnters ++ looked 7 ++ [.message (some [])]) := by decide +kernel
  obtain ⟨d, hd, hrun⟩ := Option.bind_eq_some_iff.1 hrun
  obtain ⟨d', hd', hrun⟩ := Option.bind_eq_some_iff.1 hrun
  obtain ⟨msg, hmsg, hvoir⟩ := Option.map_eq_some_iff.1 hrun
  have hall := views_recorded shippedConfig (by decide) (by decide) ["red"] 2 (fun _ _ => 1) "red" 1 _
    (.of_test looksUnraised_of_test hguard)
  exact ⟨d, d', msg, hd, hd', hmsg, hvoir, hall.at_step hd hd' msg hmsg hvoir⟩

/-- Another player raises everybody on the tile before the first `voir` of the client is received. -/
def raisedByOther : List DuplexAction :=
  clientEnters ++ otherEnters ++
    (scanPass [5] [.receive (.text (some { type := "cmd", cmd := "incantation" })) ⟨0, 0, 0⟩] 0 ++ idlePass 7 ++
      idlePass 310).map .server ++ [.message (some [])] ++ looked 320

/-- A view of level 2 on the map of one tile, after the stones of the incantation are gone. -/
def nineTiles : List (List String) := List.replicate 9 ["nourriture", "mendiane", "phiras", "thystame"]

/-- The server shows nine tiles to its player of level 2; the client has four offsets, and its map is not updated. -/
theorem raised_view_refused : ∃ (d : Duplex) (msg : Json) (w : World) (pos : ClientPosition) (pl : Player),
    run (duplexStep shippedConfig 1) stoneDuplex raisedByOther = some d ∧
    Guarded (duplexStep shippedConfig 1) DuplexGuard stoneDuplex raisedByOther ∧
    (d.machine.wireTo 1)[d.read]? = some msg ∧ msg.lookup "vision" = some (.vision nineTiles) ∧
    d.machine.server.playerHeap 1 = some pl ∧ pl.id = 4 ∧ pl.level = 2 ∧ d.client.level = 1 ∧
    d.client.world = some w ∧ d.client.position = some pos ∧
    (w.updateVisibleTiles pos.x pos.y pos.direction d.client.level nineTiles).isNone ∧
    ¬ AllSteps (duplexStep shippedConfig 1) (RecordsViews 1) stoneDuplex (raisedByOther ++ [.message (some [])]) := by
  have hrun : ((run (duplexStep shippedConfig 1) stoneDuplex raisedByOther).bind fun d =>
      ((d.machine.wireTo 1)[d.read]?).bind fun msg => (d.machine.server.playerHeap 1).bind fun pl =>
      d.client.world.bind fun w => d.client.position.bind fun pos =>
      (duplexStep shippedConfig 1 d (.message (some []))).map fun _ =>
        [decide (msg.lookup "vision" = some (.vision nineTiles)), decide (pl.id = 4), decide (pl.level = 2),
          decide (d.client.level = 1), decide (msg.answered = some "voir"),
          (w.updateVisibleTiles pos.x pos.y pos.direction d.client.level nineTiles).isNone]) =
      some [true, true, true, true, true, true] := by decide +kernel
  have hguard : testGuard (duplexStep shippedConfig 1) duplexTest stoneDuplex raisedByOther := by decide +kernel
  obtain ⟨d, hd, hrun⟩ := Option.bind_eq_some_iff.1 hrun
  obtain ⟨msg, hmsg, hrun⟩ := Option.bind_eq_some_iff.1 hrun
  obtain ⟨pl, hpl, hrun⟩ := Option.bind_eq_some_iff.1 hrun
  obtain ⟨w, hw, hrun⟩ := Option.bind_eq_some_iff.1 hrun
  obtain ⟨pos, hpos, hrun⟩ := Option.bind_eq_some_iff.1 hrun
  obtain ⟨d', hd', hfacts⟩ := Option.map_eq_some_iff.1 hrun
  simp only [List.cons.injEq, decide_eq_true_eq, and_true] at hfacts
  obtain ⟨hvision, hid, hraised, hlevel, hvoir, hnone⟩ := hfacts
  refine ⟨d, msg, w, pos, pl, hd, .of_test duplexGuard_of_test hguard, hmsg, hvision, hpl, hid, hraised, hlevel, hw,
    hpos, hnone, fun hall => ?_⟩
  obtain ⟨data, _, _, _, hdata, -, -, hoffsets, -⟩ := (hall.at_step hd hd' msg hmsg hvoir).recorded
  obtain rfl : nineTiles = data := by simpa [hvision] using hdata
  rw [length_offsets, hlevel] at hoffsets
  exact absurd hoffsets (by decide)

end Zappy

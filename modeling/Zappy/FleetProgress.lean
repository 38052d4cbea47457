import Zappy.FleetRuns

/-!
# No client of the fleet waits in vain

A client that has been welcomed goes on as long as it waits for an answer: the answer is on the wire, or the server
has its command queued, or the command is on its way.  The handlers of the plain messages return, and the AI is asked
when no answer is awaited any more; it returns commands unless it is asked about a view on level 8.  So the client
always waits for an answer, until its session is closed or the AI has run out of rules.
-/

namespace Zappy

open Run Stateful Slots

variable {cfg : Config} {K : Conn} {width height : Nat} {F F' : Fleet} {act : FleetAction} {msg : Json}
  {advice : Advice} {c : JavaClient} {cmds : List Command} {cmd : String}

/-! ### Handlers that return -/

private theorem orThrow_returns {α : Type} {o : Option α} {a : α} {Q : α → JavaClient → Prop} (h : o = some a)
    (hQ : Q a c) : Returns (orThrow o) c Q := by
  rw [h]
  exact .pure hQ

private theorem addLife_returns {life : Int} {Q : PUnit → JavaClient → Prop}
    (h : Q ⟨⟩ { c with life := c.life + life }) : Returns (addLife life) c Q := .modify h

private theorem moved_returns (status : String) (move : ClientPosition → ClientPosition) (hworld : c.world.isSome)
    (hpos : c.position.isSome) : Returns (moved status move) c fun _ c => c.world.isSome = true := by
  obtain ⟨pos, hpos⟩ := Option.isSome_iff_exists.1 hpos
  refine .ite (fun _ => .get_bind ?_) fun _ => .pure hworld
  exact .bind (orThrow_returns (Q := fun _ c => c.world.isSome = true) hpos hworld) fun pos c hc => .modify hc

private theorem handleInventaireResponse_returns (inv : Inventory)
    (hmsg : msg.lookup "inventaire" = some (.numbers inv.fields)) (hworld : c.world.isSome) :
    Returns (handleInventaireResponse msg) c fun _ c => c.world.isSome = true := by
  have hnames : ∀ name ∈ inv.fields.map Prod.fst, (Resource.fromString name).isSome := by
    change ∀ name ∈ ["nourriture", "linemate", "deraumere", "sibur", "mendiane", "phiras", "thystame"], _
    decide
  unfold handleInventaireResponse
  rw [hmsg]
  refine Returns.forM (I := fun c : JavaClient => c.world.isSome = true) hworld fun entry hentry c hc => ?_
  obtain ⟨resource, hresource⟩ := Option.isSome_iff_exists.1 (hnames entry.1 (List.mem_map_of_mem hentry))
  obtain ⟨w, hw⟩ := Option.isSome_iff_exists.1 hc
  refine .bind (orThrow_returns (Q := fun _ c => c.world = some w) hresource hw) fun resource c hc => ?_
  refine .modify_bind (.get_bind ?_)
  exact .bind (orThrow_returns (Q := fun _ c => c.world = some w) hc hc) fun _ c hc => .pure (by rw [hc]; rfl)

private theorem handlePrendResponse_returns {item status : String} (hstatus : msg.lookup "status" = some (.str status))
    (harg : msg.lookup "arg" = some (.str item)) (hitem : status = "ok" → (Resource.fromString item).isSome)
    (hworld : c.world.isSome) : Returns (handlePrendResponse msg) c fun _ c => c.world.isSome = true := by
  unfold handlePrendResponse
  rw [getOr_eq hstatus, getOr_eq harg, pure_bind, pure_bind]
  refine .ite (fun hok => ?_) fun _ => .pure hworld
  obtain ⟨resource, hresource⟩ := Option.isSome_iff_exists.1 (hitem hok)
  refine .bind (orThrow_returns (Q := fun _ c => c.world.isSome = true) hresource hworld) fun resource c hc => ?_
  refine .modify_bind (.ite (fun _ => ?_) fun _ => .pure hc)
  exact .bind (addLife_returns (Q := fun _ c => c.world.isSome = true) hc) fun _ c hc => .modify hc

/-- A view that can be recorded, about which the AI returns commands. -/
private theorem handleVoirResponse_returns {data : List (List String)} {w w' : World} {pos : ClientPosition}
    (hvision : msg.lookup "vision" = some (.vision data)) (hw : c.world = some w) (hpos : c.position = some pos)
    (hseen : w.updateVisibleTiles pos.x pos.y pos.direction c.level data = some w') (hadvice : advice = some cmds)
    (hsome : cmds ≠ []) :
    Returns (handleVoirResponse advice msg) c fun _ c => c.world.isSome = true ∧ c.commandQueue ≠ [] := by
  unfold handleVoirResponse
  rw [hvision, hadvice]
  dsimp only
  refine .get_bind ?_
  rw [hw, hpos]
  simp only [orThrow, pure_bind, hseen]
  exact .modify_bind (.modify ⟨rfl, fun hnone => hsome (List.append_eq_nil_iff.1 hnone).2⟩)

/-! ### Answers -/

/-- An answer that the client handles, if the AI returns commands when it is asked: if no further answer is awaited,
commands are queued. -/
private theorem playerHandleResponse_returns (hcmd : msg.lookup "cmd" = some (.str cmd)) (hdie : cmd ≠ "-")
    (htype : (commandTypeOf cmd).isSome) (hadvice : advice = some cmds) (hsome : cmds ≠ [])
    (hanswer : Returns (handleAnswer advice cmd msg) c fun _ c =>
      c.world.isSome = true ∧ (cmd = "voir" → c.commandQueue ≠ [])) :
    Returns (playerHandleResponse advice msg) c fun _ c => c.pendingResponses = 0 → c.commandQueue ≠ [] := by
  have hhas : msg.has "cmd" := by simp [Json.has, hcmd]
  obtain ⟨type, htype⟩ := Option.isSome_iff_exists.1 htype
  unfold playerHandleResponse
  rw [if_pos hhas, getAsString_eq hcmd, pure_bind]
  dsimp only
  rw [if_neg hdie]
  refine .bind hanswer fun _ c hc => ?_
  refine .bind (orThrow_returns (Q := fun _ c => c.world.isSome = true ∧ (cmd = "voir" → c.commandQueue ≠ [])) htype hc)
    fun type c hc => ?_
  refine .bind (addLife_returns (Q := fun _ c => c.world.isSome = true ∧ (cmd = "voir" → c.commandQueue ≠ [])) hc)
    fun _ c hc => .get_bind (.ite (fun hask => .get_bind ?_) fun hask => .pure fun hzero => ?_)
  · -- the AI is asked
    obtain ⟨w, hw⟩ := Option.isSome_iff_exists.1 hc.1
    rw [hw, hadvice]
    exact .modify fun _ hnone => hsome (List.append_eq_nil_iff.1 hnone).2
  · refine hc.2 ?_
    by_contra hvoir
    exact hask ⟨hvoir, hzero⟩

/-- A client that waits for an answer, if it is not dead. -/
def JavaClient.Occupied (c : JavaClient) : Prop := c.dead = false → 1 ≤ c.pendingResponses

private theorem sendLoop_occupied (h : c.Occupied) : (finalState (sendLoop c.commandQueue) c).Occupied := by
  have hbook := sendLoop_book c.commandQueue rfl
  simp only [JavaClient.book, Prod.mk.injEq] at hbook
  obtain ⟨-, hdead, hpending, -⟩ := hbook
  intro halive
  rw [hdead] at halive
  have hone := h halive
  rw [hpending]
  omega

/-- After such an answer the client waits for another one. -/
private theorem handleResponse_busy (htype : msg.lookup "type" = some (.str "response"))
    (hcmd : msg.lookup "cmd" = some (.str cmd)) (hdie : cmd ≠ "-") (hoccupied : c.Occupied)
    (hreturns : Returns (playerHandleResponse advice msg) { c with pendingResponses := c.pendingResponses - 1 }
      fun _ c => c.pendingResponses = 0 → c.commandQueue ≠ []) :
    (finalState (handleResponse advice msg) c).Occupied := by
  have hmsg : handleMsg advice msg = handleResponseMsg advice msg := by
    unfold handleMsg
    rw [getOr_eq htype, pure_bind]
    rfl
  obtain ⟨⟨⟩, hrun, hqueue⟩ := hreturns.finalState
  have hbook : (finalState (playerHandleResponse advice msg)
      { c with pendingResponses := c.pendingResponses - 1 }).book =
        (c.sessionOpen, c.dead, c.pendingResponses - 1, c.sent) :=
    playerHandleResponse_uncounted hcmd hdie _ { c with pendingResponses := c.pendingResponses - 1 } rfl
  have hhandled : (handleMsg advice msg).run c = .ok ⟨⟩ (finalState (playerHandleResponse advice msg)
      { c with pendingResponses := c.pendingResponses - 1 }) := by
    rw [hmsg]
    exact hrun
  rw [handleResponse_ok hhandled]
  generalize finalState (playerHandleResponse advice msg)
    { c with pendingResponses := c.pendingResponses - 1 } = c₁ at hbook hqueue
  simp only [JavaClient.book, Prod.mk.injEq] at hbook
  obtain ⟨-, hdead, hpending, -⟩ := hbook
  by_cases hzero : c₁.pendingResponses = 0
  · -- the loop sends one of the queued commands
    have hloop := sendLoop_book c₁.commandQueue rfl
    simp only [JavaClient.book, Prod.mk.injEq] at hloop
    obtain ⟨-, halive, hsent, -⟩ := hloop
    intro hdead'
    rw [halive] at hdead'
    have hlength := List.length_pos_iff.2 (hqueue hzero)
    rw [hsent, JavaClient.quota, hdead', hzero]
    simp only [Bool.false_eq_true, if_false]
    omega
  · refine sendLoop_occupied fun halive => ?_
    have hone := hoccupied (hdead.symm.trans halive)
    omega

/-! ### Plain answers -/

variable {a : Agent} {draw : Fin 3}

private theorem mapSize_of_response (htype : msg.lookup "type" = some (.str "response")) : msg.mapSize = none := by
  unfold Json.mapSize
  rw [textOr_eq htype]
  split
  · rename_i hwelcome _ _
    exact absurd (Option.some.inj hwelcome) (by decide)
  · rfl

/-- Asked about anything but a view, the AI returns commands. -/
private theorem decide_of_not_voir (a : Agent) (draw : Fin 3) (hvoir : msg.answered ≠ some "voir") :
    ∃ cmds, (a.decide draw msg).2 = some cmds := by
  unfold Agent.decide
  split
  · exact ⟨_, rfl⟩
  · exact absurd ‹_› hvoir
  · exact ⟨_, rfl⟩
  · exact ⟨_, rfl⟩

/-- Asked about a view that can be recorded, it decides on the view. -/
private theorem decide_of_voir {data : List (List String)} {w w' : World} {pos : ClientPosition}
    (htype : msg.lookup "type" = some (.str "response")) (hcmd : msg.lookup "cmd" = some (.str "voir"))
    (hvision : msg.lookup "vision" = some (.vision data)) (hworld : a.client.world = some w)
    (hpos : a.client.position = some pos)
    (hseen : w.updateVisibleTiles pos.x pos.y pos.direction a.client.level data = some w') :
    a.decide draw msg = a.ai.decideNextMovesViewBased a.client draw data := by
  unfold Agent.decide
  rw [mapSize_of_response htype, answered_eq htype hcmd]
  unfold Agent.lookAround
  rw [hvision, hworld, hpos]
  dsimp only
  rw [hseen]
  rfl

/-- A client that reads a plain answer, with an AI that has a rule for its level, waits for another answer. -/
private theorem Plain.busy (hw : 0 < width) (hh : 0 < height) (h : Plain width height msg) (hkind : msg.kind = .answer)
    (hloc : Located width height a.client.known) (hworld : a.client.world.isSome)
    (hrule : (getRule a.ai.debugLevel).isSome) (hoccupied : a.client.Occupied) :
    (a.handleResponse draw msg).client.Occupied := by
  obtain ⟨w, hworld'⟩ := Option.isSome_iff_exists.1 hworld
  obtain ⟨pos, hpos⟩ := Option.isSome_iff_exists.1 (hloc.both hworld)
  -- the commands other than `voir`
  have hother : ∀ cmd, msg.lookup "type" = some (.str "response") → msg.lookup "cmd" = some (.str cmd) → cmd ≠ "-" →
      cmd ≠ "voir" → (commandTypeOf cmd).isSome →
      Returns (handleAnswer (a.decide draw msg).2 cmd msg)
        { a.client with pendingResponses := a.client.pendingResponses - 1 } (fun _ c => c.world.isSome = true) →
      (a.handleResponse draw msg).client.Occupied := by
    intro cmd htype hcmd hdie hvoir hknown hreturns
    have hanswered : msg.answered ≠ some "voir" := by
      rw [answered_eq htype hcmd]
      exact fun he => hvoir (Option.some.inj he)
    obtain ⟨cmds, hcmds⟩ := decide_of_not_voir a draw hanswered
    refine handleResponse_busy htype hcmd hdie hoccupied ?_
    refine playerHandleResponse_returns hcmd hdie hknown hcmds (Agent.decide_sober hcmds).some ?_
    exact hreturns.mono fun _ c hc => ⟨hc, fun he => absurd he hvoir⟩
  cases h with
  | @report type about htype =>
    simp only [List.mem_cons, List.not_mem_nil, or_false] at htype
    rcases htype with rfl | rfl | rfl | rfl <;> exact Kind.noConfusion hkind
  | welcome => exact Kind.noConfusion hkind
  | @walked cmd arg hcmd =>
    have hstatus : (response cmd arg (some "ok")).lookup "status" = some (.str "ok") := by cases arg <;> rfl
    have hmoved : ∀ move, Returns (moved "ok" move)
        { a.client with pendingResponses := a.client.pendingResponses - 1 } fun _ c => c.world.isSome = true :=
      fun move => moved_returns _ _ hworld (hloc.both hworld)
    simp only [List.mem_cons, List.not_mem_nil, or_false] at hcmd
    rcases hcmd with rfl | rfl | rfl
    · refine hother "avance" rfl rfl (by decide) (by decide) (by decide) ?_
      simp only [handleAnswer]
      rw [getOr_eq hstatus, pure_bind]
      exact hmoved _
    · refine hother "droite" rfl rfl (by decide) (by decide) (by decide) ?_
      simp only [handleAnswer]
      rw [getAsString_eq hstatus, pure_bind]
      exact hmoved _
    · refine hother "gauche" rfl rfl (by decide) (by decide) (by decide) ?_
      simp only [handleAnswer]
      rw [getAsString_eq hstatus, pure_bind]
      exact hmoved _
  | saw hfirst =>
    obtain ⟨s, pl, hbuilt, hone⟩ := hfirst
    obtain ⟨data, rfl, hlength, hnames⟩ := voirAnswer_spec hbuilt
    obtain ⟨hwidth, hheight⟩ := hloc.world w hworld'
    obtain ⟨h₀, h₄⟩ := hloc.position pos hpos
    have hlevel : a.client.level = 1 := hloc.level
    have hoffsets : data.length ≤ (generateRelativeOffsets a.client.level).length := by
      rw [length_offsets, hlevel, hlength, hone]
    obtain ⟨w', hseen, -⟩ := updateVisibleTiles_recorded (w := w) (by omega) (by omega) h₀ h₄ pos.x pos.y hoffsets
      hnames
    generalize hmsg : [("type", JsonValue.str "response"), ("cmd", .str "voir"), ("vision", .vision data)] = msg at *
    have htype : msg.lookup "type" = some (.str "response") := by rw [← hmsg]; rfl
    have hcmd : msg.lookup "cmd" = some (.str "voir") := by rw [← hmsg]; rfl
    have hvision : msg.lookup "vision" = some (.vision data) := by rw [← hmsg]; rfl
    have hsize : data.length = (a.client.level.toNat + 1) ^ 2 := by
      rw [hlength, hone, hlevel]
      rfl
    have hreturns : (a.ai.decideNextMovesViewBased a.client draw data).2.isSome :=
      decideNextMovesViewBased_isSome hrule hsize
    obtain ⟨cmds, hcmds⟩ := Option.isSome_iff_exists.1 hreturns
    rw [← decide_of_voir htype hcmd hvision hworld' hpos hseen] at hcmds
    refine handleResponse_busy htype hcmd (by decide) hoccupied ?_
    refine playerHandleResponse_returns hcmd (by decide) (by decide) hcmds (Agent.decide_sober hcmds).some ?_
    have hview : Returns (handleVoirResponse (a.decide draw msg).2 msg)
        { a.client with pendingResponses := a.client.pendingResponses - 1 } fun _ c =>
          c.world.isSome = true ∧ c.commandQueue ≠ [] :=
      handleVoirResponse_returns hvision hworld' hpos hseen hcmds (Agent.decide_sober hcmds).some
    exact hview.mono fun _ c hc => ⟨hc.1, fun _ => hc.2⟩
  | held inv =>
    refine hother "inventaire" rfl rfl (by decide) (by decide) (by decide) ?_
    simp only [handleAnswer]
    exact handleInventaireResponse_returns inv rfl hworld
  | @took item status hitem =>
    refine hother "prend" rfl rfl (by decide) (by decide) (by decide) ?_
    simp only [handleAnswer]
    exact handlePrendResponse_returns rfl rfl hitem hworld
  | farewell => exact Kind.noConfusion hkind

/-! ### Plain messages -/

/-- The greeting, a remark and the welcome. -/
private theorem sendMsg_occupied (text : ClientMessage) : Keeps JavaClient.Occupied (sendMsg text) := by
  refine .modify fun c h => ?_
  split
  · exact h
  · exact h

private theorem handleResponse_report (hkind : msg.kind = .bienvenue ∨ msg.kind = .remark) (h : c.Occupied) :
    (finalState (handleResponse advice msg) c).Occupied := by
  have hread := handleMsg_reading advice msg
  have hmsg : Keeps JavaClient.Occupied (handleMsg advice msg) := by
    rcases hkind with hkind | hkind
    · rw [hkind] at hread
      cases hread with
      | bienvenue hmsg =>
        rw [hmsg]
        exact .bind getAsString_keeps fun _ => .bind .state fun c => sendMsg_occupied _
    · rw [hkind] at hread
      cases hread with
      | remark hmsg =>
        rw [hmsg]
        exact .pure _
  exact Keeps.bind hmsg (fun _ => .get_bind fun c hc => sendLoop_occupied hc) c h

private theorem handleResponse_welcome_occupied (s : Server) (n : Int) (h : 0 ≤ c.pendingResponses) :
    (finalState (handleResponse advice (welcome s n)) c).Occupied := by
  have hrun : (handleMsg advice (welcome s n)).run c = .ok ⟨⟩ (JavaClient.commanded
      { c with
        world := some ⟨s.mapX, s.mapY, fun _ _ _ => 0⟩
        position := some { worldWidth := s.mapX, worldHeight := s.mapY } } { type := .voir }) :=
    sendCommand_run _ _
  rw [handleResponse_ok hrun]
  refine sendLoop_occupied ?_
  unfold JavaClient.commanded
  split
  · exact fun halive => absurd halive (by simpa using ‹_›)
  · intro _
    dsimp only
    omega

private theorem Plain.sort (h : Plain width height msg) :
    msg.kind = .answer ∨ (msg.kind = .bienvenue ∨ msg.kind = .remark) ∨ (msg.kind = .farewell ∨ msg.kind = .error) ∨
      ∃ s n, msg = Zappy.welcome s n := by
  cases h with
  | @report type about htype =>
    simp only [List.mem_cons, List.not_mem_nil, or_false] at htype
    rcases htype with rfl | rfl | rfl | rfl
    · exact Or.inr (Or.inl (Or.inl rfl))
    · exact Or.inr (Or.inr (Or.inl (Or.inr rfl)))
    · exact Or.inr (Or.inl (Or.inr rfl))
    · exact Or.inr (Or.inl (Or.inr rfl))
  | welcome s n => exact Or.inr (Or.inr (Or.inr ⟨s, n, rfl⟩))
  | @walked cmd arg hcmd =>
    left
    rw [kind_response]
    simp only [List.mem_cons, List.not_mem_nil, or_false] at hcmd
    rcases hcmd with rfl | rfl | rfl <;> rfl
  | saw hfirst => exact Or.inl (kind_firstLevel hfirst)
  | held => exact Or.inl rfl
  | took =>
    left
    rw [kind_response]
    rfl
  | farewell => exact Or.inr (Or.inr (Or.inl (Or.inl rfl)))

/-- A client that reads a plain message, and whose session is open then, waits for an answer, if it was welcomed now, or
waited for one before and its AI has a rule for its level. -/
private theorem Plain.occupied (hw : 0 < width) (hh : 0 < height) (h : Plain width height msg)
    (hloc : Located width height a.client.known) (hnonneg : 0 ≤ a.client.pendingResponses)
    (hbefore : msg.kind ≠ .welcome →
      a.client.world.isSome = true ∧ (getRule a.ai.debugLevel).isSome = true ∧ a.client.Occupied)
    (hopen : (a.handleResponse draw msg).client.sessionOpen = true) :
    (a.handleResponse draw msg).client.Occupied := by
  rcases h.sort with hkind | hkind | hkind | ⟨s, n, rfl⟩
  · obtain ⟨hworld, hrule, hoccupied⟩ := hbefore (by rw [hkind]; decide)
    exact h.busy hw hh hkind hloc hworld hrule hoccupied
  · refine handleResponse_report hkind (hbefore ?_).2.2
    rcases hkind with hkind | hkind <;> rw [hkind] <;> decide
  · have hclosed := (handleResponse_closes (a.decide draw msg).2 a.client hkind).1
    exact absurd (hopen.symm.trans hclosed) (by decide)
  · exact handleResponse_welcome_occupied s n hnonneg

/-! ### The level of the AI -/

theorem Plain.mapSize (h : Plain width height msg) (hkind : msg.kind ≠ .welcome) : msg.mapSize = none := by
  cases h with
  | @report type about htype =>
    simp only [List.mem_cons, List.not_mem_nil, or_false] at htype
    rcases htype with rfl | rfl | rfl | rfl <;> rfl
  | welcome => exact absurd rfl hkind
  | walked arg => cases arg <;> exact mapSize_of_response rfl
  | saw hfirst =>
    obtain ⟨s, pl, hbuilt, -⟩ := hfirst
    obtain ⟨data, rfl, -⟩ := voirAnswer_spec hbuilt
    exact mapSize_of_response rfl
  | held => exact mapSize_of_response rfl
  | took => exact mapSize_of_response rfl
  | farewell => exact mapSize_of_response rfl

/-- The level goes down only when the AI is replaced, and to 1 then. -/
private theorem decide_level (a : Agent) (draw : Fin 3) (msg : Json) :
    (msg.mapSize.isSome ∧ (a.decide draw msg).1.debugLevel = 1) ∨
      a.ai.debugLevel ≤ (a.decide draw msg).1.debugLevel := by
  unfold Agent.decide
  split
  · rename_i hsize
    exact Or.inl ⟨by rw [hsize]; rfl, rfl⟩
  · right
    unfold Agent.lookAround
    split
    · split
      · exact debugLevel_mono ..
      · exact le_rfl
    · exact le_rfl
  · right
    dsimp only
    unfold Agent.checked
    split
    · split <;> exact le_rfl
    · exact le_rfl
  · exact Or.inr le_rfl

/-! ### Steps -/

/-- The AI of `K` has a level, and the client of `K` waits for an answer once it was welcomed, as long as its session is
open and the AI has a rule for its level. -/
structure Fleet.Alert (F : Fleet) (K : Conn) : Prop where
  level : 1 ≤ (F.links K).agent.ai.debugLevel
  occupied : Welcomed ((F.duplex K).processed K) → (F.links K).agent.client.sessionOpen = true →
    (F.links K).agent.ai.debugLevel ≤ 7 → (F.links K).agent.client.Occupied

theorem Fleet.Alert.message (hw : 0 < width) (hh : 0 < height) (h : F.Informed width height) (hK : F.Alert K)
    {draw : Fin 3} (hopen : (F.links K).agent.client.sessionOpen = true) (hmsg : F.next K = some msg) :
    (F.setLink K { F.links K with
      agent := (F.links K).agent.handleResponse draw msg
      read := (F.links K).read + 1 }).Alert K := by
  have hplain : Plain width height msg := h.inv.peace.plain _ (mem_wireTo (List.mem_of_getElem? hmsg))
  have hview := h.views K
  have hnonneg : 0 ≤ (F.links K).agent.client.pendingResponses := ((h.inv.links K).open hopen).flowOk.nonneg
  have hlevel := decide_level (F.links K).agent draw msg
  constructor
  case level =>
    rw [setLink_links]
    have hone := hK.level
    dsimp only [Agent.handleResponse]
    omega
  case occupied =>
    rw [duplex_setLink, setLink_links]
    intro hwelcomed hopen' hrule
    refine hplain.occupied hw hh hview.located hnonneg (fun hkind => ?_) hopen'
    have hearlier : Welcomed ((F.duplex K).processed K) := by
      have hread : ((F.duplex K).machine.wireTo K)[(F.duplex K).read]? = some msg := hmsg
      have hnext : Welcomed ((F.duplex K).processed K ++ [msg]) := by
        rw [← processed_next (c := ((F.links K).agent.handleResponse draw msg).client) hread]
        exact hwelcomed
      exact hnext.next.resolve_right hkind
    have hrule' : (F.links K).agent.ai.debugLevel ≤ 7 := by
      rcases hlevel with ⟨hsize, -⟩ | hmono
      · rw [hplain.mapSize hkind] at hsize
        cases hsize
      · exact hmono.trans hrule
    exact ⟨hview.welcomed hearlier, getRule_isSome.2 ⟨hK.level, hrule'⟩, hK.occupied hearlier hopen hrule'⟩

/-- The steps that the client of `K` does not take. -/
theorem Fleet.Alert.congr (h : F.Alert K) (hagent : (F'.links K).agent = (F.links K).agent)
    (hprocessed : (F'.duplex K).processed K = (F.duplex K).processed K) : F'.Alert K where
  level := by
    rw [hagent]
    exact h.level
  occupied := by
    rw [hagent, hprocessed]
    exact h.occupied

theorem Fleet.Alert.step (hw : 0 < width) (hh : 0 < height) (h : F.Informed width height) (hK : F.Alert K)
    (hstep : fleetStep cfg F act = some F') : F'.Alert K := by
  cases act with
  | server a =>
    obtain ⟨m, n, hm, hd, -⟩ := duplexStep_server (fleetStep_server hstep K)
    refine hK.congr ?_ ?_
    · simp only [fleetStep] at hstep
      split at hstep
      · obtain ⟨m, -, rfl⟩ := Option.map_eq_some_iff.1 hstep
        rfl
      · split at hstep
        · obtain ⟨m, -, rfl⟩ := Option.map_eq_some_iff.1 hstep
          simp only [Fleet.setLink, Function.update_apply]
          split
          · next hk => rw [hk]
          · rfl
        · cases hstep
    · rw [hd]
      exact processed_append (h.views K).read (machineStep_wire hm)
  | message k draw =>
    simp only [fleetStep] at hstep
    split at hstep
    · rename_i hopen
      obtain ⟨msg, hmsg, rfl⟩ := Option.map_eq_some_iff.1 hstep
      by_cases hk : K = k
      · subst hk
        exact hK.message hw hh h hopen hmsg
      · refine hK.congr ?_ ?_
        · rw [setLink_links_ne hk]
        · rw [duplex_setLink_ne hk]
    · cases hstep
  | close k =>
    cases hstep
    by_cases hk : K = k
    · subst hk
      refine ⟨?_, fun _ hopen => ?_⟩
      · rw [Fleet.modClient, setLink_links]
        exact hK.level
      · rw [Fleet.modClient, setLink_links] at hopen
        cases hopen
    · refine hK.congr ?_ ?_
      · rw [Fleet.modClient, setLink_links_ne hk]
      · rw [Fleet.modClient, duplex_setLink_ne hk]
  | error k =>
    cases hstep
    by_cases hk : K = k
    · subst hk
      refine ⟨?_, fun _ _ _ => ?_⟩
      · rw [Fleet.modClient, setLink_links]
        exact hK.level
      · rw [Fleet.modClient, setLink_links]
        exact fun halive => Bool.noConfusion halive
    · refine hK.congr ?_ ?_
      · rw [Fleet.modClient, setLink_links_ne hk]
      · rw [Fleet.modClient, duplex_setLink_ne hk]

/-! ### What is awaited -/

/-- What a client whose session is open waits for is on the wire, queued, or on its way to the server. -/
private theorem Fleet.Inv.awaited (h : F.Inv width height) (hopen : (F.links K).agent.client.sessionOpen = true)
    {p : Addr} {cl : Client} (hc : LiveClient F.machine.server p cl) (hK : F.machine.session cl.socketFd = some K) :
    (F.links K).agent.client.pendingResponses =
      countKind .answer ((F.machine.wireTo K).drop (F.links K).read) + cl.eventBuffer.owed.length +
        commandsIn ((F.links K).agent.client.sent.drop (F.links K).taken) := by
  have hlink := h.links K
  have hcounter : (F.links K).agent.client.pendingResponses =
      (commandsIn (F.links K).agent.client.sent : Int) - countKind .answer ((F.duplex K).processed K) :=
    hlink.counter hopen
  have hsent : commandsIn (F.links K).agent.client.sent =
      commandsIn (F.duplex K).received + commandsIn ((F.links K).agent.client.sent.drop (F.links K).taken) := by
    rw [Duplex.received, ← commandsIn_append]
    exact congrArg commandsIn (List.take_append_drop ..).symm
  have hwire : countKind .answer (F.machine.wireTo K) = countKind .answer ((F.duplex K).processed K) +
      countKind .answer ((F.machine.wireTo K).drop (F.links K).read) := by
    rw [Duplex.processed, ← countKind_append]
    exact congrArg (countKind .answer) (List.take_append_drop ..).symm
  have hreceived : commandsIn (F.duplex K).received = countKind .answer (F.machine.wireTo K) +
      cl.eventBuffer.owed.length := by
    have hall : answered (F.machine.wireTo K) ++ cl.eventBuffer.owed = commandNames (F.duplex K).received :=
      hlink.lossless.pending p cl hc hK
    have hnamed : ∀ text ∈ (F.duplex K).received, text.type = some "cmd" → text.cmd.isSome := by
      intro text htext htype
      obtain ⟨name, -, hname⟩ := hlink.sober.1 text (List.mem_of_mem_take htext) htype
      rw [hname]
      rfl
    rw [← commandNames_length hnamed, ← hall, List.length_append, answered_length]
  omega

/-- In every run of the server and its clients in which `accept` returns no descriptor with a pending handshake: a
client that was welcomed waits for an answer, as long as its session is open and its AI has not reached level 8; and
what it waits for is on the wire, or queued at the server, or on its way there. -/
theorem fleet_never_stalls (cfg : Config) {width height : Nat} (hw : 0 < width) (hh : 0 < height)
    (teams : List String) (nbClients : Nat) (counts : Nat → InventoryType → Nat) (teamNames : Conn → String)
    (as : List FleetAction) {F : Fleet}
    (hG : Guarded (fleetStep cfg) FleetGuard (fleetInit cfg width height teams nbClients counts teamNames) as)
    (h : run (fleetStep cfg) (fleetInit cfg width height teams nbClients counts teamNames) as = some F) (K : Conn)
    (hwelcomed : Welcomed ((F.duplex K).processed K)) (hopen : (F.links K).agent.client.sessionOpen = true)
    (halive : (F.links K).agent.client.dead = false) (hlevel : (F.links K).agent.ai.debugLevel ≤ 7) :
    1 ≤ (F.links K).agent.client.pendingResponses ∧
      ∀ p cl, LiveClient F.machine.server p cl → F.machine.session cl.socketFd = some K →
        (F.links K).agent.client.pendingResponses =
          countKind .answer ((F.machine.wireTo K).drop (F.links K).read) + cl.eventBuffer.owed.length +
            commandsIn ((F.links K).agent.client.sent.drop (F.links K).taken) := by
  have hend : F.Informed width height ∧ F.Alert K := by
    refine hG.invariant (I := fun F => F.Informed width height ∧ F.Alert K) ?_ h ⟨fleetInformed_init .., ?_⟩
    · rintro F a F' hstep hG ⟨hinf, halert⟩
      exact ⟨hinf.step hw hh hG hstep, halert.step hw hh hinf hstep⟩
    · refine ⟨le_rfl, ?_⟩
      rintro ⟨msg, hmsg, -⟩
      cases hmsg
  exact ⟨hend.2.occupied hwelcomed hopen hlevel halive, fun p cl hc hK => hend.1.inv.awaited hopen hc hK⟩

theorem fleet_never_stalls_food : ∃ F c cl, run (fleetStep shippedConfig) shippedFleet fleetTakesFood = some F ∧
    LiveClient F.machine.server c cl ∧ cl.eventBuffer.owed = [] ∧
    1 ≤ (F.links 1).agent.client.pendingResponses ∧
    (F.links 1).agent.client.pendingResponses = commandsIn ((F.links 1).agent.client.sent.drop (F.links 1).taken) := by
  have hrun : ((run (fleetStep shippedConfig) shippedFleet fleetTakesFood).bind fun F =>
      (F.machine.server.clientHeap 0).map fun cl =>
        [((F.duplex 1).processed 1).any fun msg => msg.kind = .welcome, (F.links 1).agent.client.sessionOpen,
          !(F.links 1).agent.client.dead, decide ((F.links 1).agent.ai.debugLevel ≤ 7),
          decide (0 ∈ F.machine.server.live), decide (F.machine.session cl.socketFd = some 1),
          decide (cl.eventBuffer.owed = []),
          decide (countKind .answer ((F.machine.wireTo 1).drop (F.links 1).read) = 0)]) =
      some [true, true, true, true, true, true, true, true] := by decide +kernel
  obtain ⟨F, hF, hrun⟩ := Option.bind_eq_some_iff.1 hrun
  obtain ⟨cl, hcl, hfacts⟩ := Option.map_eq_some_iff.1 hrun
  simp only [List.cons.injEq, List.any_eq_true, decide_eq_true_eq, Bool.not_eq_true', and_true] at hfacts
  obtain ⟨hwelcomed, hopen, halive, hlevel, hlive, hsession, howed, hread⟩ := hfacts
  obtain ⟨hone, hawaited⟩ := fleet_never_stalls shippedConfig Nat.one_pos Nat.one_pos ["red"] 2 (fun _ _ => 1)
    (fun _ => "red") fleetTakesFood fleetTakesFood_guarded hF 1 hwelcomed hopen halive hlevel
  refine ⟨F, 0, cl, hF, ⟨hlive, hcl⟩, howed, hone, ?_⟩
  rw [hawaited 0 cl ⟨hlive, hcl⟩ hsession, howed, hread]
  simp

end Zappy

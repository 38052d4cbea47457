import Zappy.Views

/-!
# The stones of a player

What a player carries besides food changes when the player itself takes or puts down a stone, and by nothing else; the
answer says by how much.
-/

namespace Zappy

open LinkedList Run

variable {cfg : Config} {K : Conn} {m m' : Machine} {act : MachineAction} {s s' s₂ : Server} {a : GameAction}
  {chance : Chance} {p q : Addr} {pl : Player}

/-! ### What a player carries -/

/-- The inventory of a player, less its food. -/
def Server.stonesOf (s : Server) (q : Addr) : Option Inventory :=
  (s.playerHeap q).map fun r => { r.inv with nourriture := 0 }

theorem stonesOf_eq (hpl : s.playerHeap q = some pl) : s.stonesOf q = some { pl.inv with nourriture := 0 } := by
  rw [Server.stonesOf, hpl, Option.map_some]

private theorem modPlayer_stones (p q : Addr) {f : Player → Player}
    (hf : ∀ r, { (f r).inv with nourriture := 0 } = { r.inv with nourriture := 0 }) :
    (s.modPlayer p f).stonesOf q = s.stonesOf q := by
  simp only [Server.stonesOf, modPlayer_heap]
  split
  · rw [Option.map_map]
    congr 1
    funext r
    exact hf r
  · rfl

private theorem stonesOf_of_vitals (h : s'.vitalsOf q = s.vitalsOf q) : s'.stonesOf q = s.stonesOf q := by
  have hinv := congrArg (Option.map fun v : Nat × Inventory => { v.2 with nourriture := 0 }) h
  rw [Server.vitalsOf, Server.vitalsOf, Option.map_map, Option.map_map] at hinv
  exact hinv

/-- A turn in which `q` neither takes nor puts down. -/
private theorem gamePlaySlot_stones {i : Nat} (h : gamePlaySlot cfg chance s i = some s')
    (hlive : (s'.playerHeap q).isSome) (hnot : ∀ ev, executed s (.playSlot chance i) = some ev → ¬ ev.moves q) :
    s'.stonesOf q = s.stonesOf q := by
  rcases gamePlaySlot_executed h with ⟨hnone, -⟩ | ⟨ev, c, b, s₂, hev, hcall, hheap, -⟩
  · cases gamePlaySlot_cases h with
    | empty => rfl
    | eats => exact modPlayer_stones _ q fun _ => rfl
    | dies hat hdead hfood => exact stonesOf_of_vitals (gamePlayerDie_vitals hfood hlive)
    | waits => rfl
    | plays hat halive hdue => rw [hat.executed_eq, if_pos ⟨halive, hdue⟩] at hnone; cases hnone
  · have hcalled : s₂.stonesOf q = (s.setClientBuffer c b).stonesOf q :=
      stonesOf_of_vitals (runCallback_vitals (hnot ev hev) hcall)
    rw [Server.stonesOf, hheap]
    exact hcalled

private theorem gameKillPlayer_stones (fd : Fd) : (gameKillPlayer s fd).stonesOf q = s.stonesOf q := by
  unfold gameKillPlayer
  split
  · rfl
  · split
    · rfl
    · split
      · rfl
      · exact modPlayer_stones _ q fun _ => rfl

/-! ### What an answer reports -/

/-- What a message reports about the stones of a player. -/
inductive News where
  | took (r : InventoryType)
  | dropped (r : InventoryType)
  | counted (inv : Inventory)
  | nothing

/-- The counts after some news; the last unit of a resource is deleted when it is dropped. -/
def News.apply (t : InventoryType → Int) : News → InventoryType → Int
  | .took r => Function.update t r (t r + 1)
  | .dropped r => Function.update t r (if t r > 1 then t r - 1 else 0)
  | .counted inv => inv.get
  | .nothing => t

/-- The counts after all the news, from an empty inventory. -/
def tally (news : List News) : InventoryType → Int := news.foldl News.apply fun _ => 0

theorem tally_append (news more : List News) : tally (news ++ more) = more.foldl News.apply (tally news) :=
  List.foldl_append

/-- The message reports the news. -/
inductive Reports : Json → News → Prop
  | took {item : String} {r : InventoryType} (h : inventoryTypeOf item = some r) :
      Reports (response "prend" (some item) (some "ok")) (.took r)
  | dropped {item : String} {r : InventoryType} (h : inventoryTypeOf item = some r) :
      Reports (response "pose" (some item) (some "ok")) (.dropped r)
  | counted (inv : Inventory) : Reports
      [("type", .str "response"), ("cmd", .str "inventaire"), ("inventaire", .numbers inv.fields)] (.counted inv)
  | refused {cmd item : String} (h : cmd = "prend" ∨ cmd = "pose") :
      Reports (response cmd (some item) (some "ko")) .nothing
  | other {msg : Json} (h : msg.answered ≠ some "prend" ∧ msg.answered ≠ some "pose" ∧
      msg.answered ≠ some "inventaire") : Reports msg .nothing

theorem Reports.of_idle {width height : Nat} {msg : Json} (h : Idle width height msg) : Reports msg .nothing :=
  .other ⟨h.answered (by decide), h.answered (by decide), h.answered (by decide)⟩

/-- Counts that agree with an inventory but for the food. -/
def Agree (t : InventoryType → Int) (inv : Inventory) : Prop := ∀ r, r ≠ .nourriture → t r = inv.get r

theorem agree_iff {t : InventoryType → Int} {inv : Inventory} :
    Agree t inv ↔ Agree t { inv with nourriture := 0 } := by
  refine forall_congr' fun r => forall_congr' fun hr => ?_
  cases r with
  | nourriture => exact absurd rfl hr
  | _ => exact Iff.rfl

theorem Agree.took {t : InventoryType → Int} {inv : Inventory} (h : Agree t inv) (r : InventoryType) :
    Agree (News.apply t (.took r)) (inv.add r 1) := by
  intro r' hr'
  rw [News.apply, Function.update_apply, Inventory.get_add]
  split
  · rename_i he
    rw [← he, h r' hr']
  · exact h r' hr'

/-- A stone that is there is put down. -/
theorem Agree.dropped {t : InventoryType → Int} {inv : Inventory} (h : Agree t inv) {r : InventoryType}
    (hr : 0 < inv.get r) : Agree (News.apply t (.dropped r)) (inv.add r (-1)) := by
  intro r' hr'
  rw [News.apply, Function.update_apply, Inventory.get_add]
  split
  · rename_i he
    subst he
    rw [h r' hr']
    split <;> omega
  · exact h r' hr'

/-- The commands that report stones. -/
def CommandType.reports : CommandType → Bool
  | .prend | .pose | .inventaire => true
  | _ => false

/-- Their answers report what they do. -/
theorem runCommand_reports {fuel : Nat} {ev : Event} {type : CommandType} (htype : type.reports = true)
    (hout : s.outbox = []) (hpl : s.playerHeap p = some pl) (h : runCommand cfg fuel s p pl ev type = some s') :
    ∃ msg news pl', s'.outbox = [(pl.id, msg)] ∧ msg.lookup "type" = some (.str "response") ∧ Reports msg news ∧
      s'.playerHeap p = some pl' ∧ ∀ t, Agree t pl.inv → Agree (news.apply t) pl'.inv := by
  have hrefused : ∀ {cmd : String} (item : String), cmd = "prend" ∨ cmd = "pose" →
      ∃ msg news pl', (s.createResponseToCommand pl.id cmd (some item) (some "ko")).outbox = [(pl.id, msg)] ∧
        msg.lookup "type" = some (.str "response") ∧ Reports msg news ∧
        (s.createResponseToCommand pl.id cmd (some item) (some "ko")).playerHeap p = some pl' ∧
        ∀ t, Agree t pl.inv → Agree (news.apply t) pl'.inv := by
    intro cmd item hcmd
    refine ⟨response cmd (some item) (some "ko"), .nothing, pl, ?_, rfl, .refused hcmd, hpl, fun t ht => ht⟩
    rw [Server.createResponseToCommand, Server.send, hout, List.nil_append]
  cases type with
  | inventaire =>
    cases h
    refine ⟨_, .counted pl.inv, pl, ?_, rfl, .counted pl.inv, hpl, fun t _ _ _ => rfl⟩
    rw [commandInventaire, Server.send, hout, List.nil_append]
  | prend =>
    cases h
    unfold commandPrend commandTransfer
    split
    · exact hrefused _ (Or.inl rfl)
    split
    · exact hrefused _ (Or.inl rfl)
    rename_i a r hr
    split
    · exact hrefused _ (Or.inl rfl)
    · rename_i s₁ hmove
      rw [helperItemsToTiles, if_pos rfl] at hmove
      split at hmove
      · cases hmove
      · cases hmove
        refine ⟨_, .took r, { pl with inv := pl.inv.add r 1 }, ?_, rfl, .took hr, ?_, fun t ht => ht.took r⟩
        · simp only [Server.createResponseToCommand, Server.send, Server.modPlayer, Server.modTile, hout,
            List.nil_append]
        · simp [Server.createResponseToCommand, Server.send, Server.modPlayer, Server.modTile, hpl]
  | pose =>
    cases h
    unfold commandPose commandTransfer
    split
    · exact hrefused _ (Or.inr rfl)
    split
    · exact hrefused _ (Or.inr rfl)
    rename_i a r hr
    split
    · exact hrefused _ (Or.inr rfl)
    · rename_i s₁ hmove
      rw [helperItemsToTiles, if_neg (by decide), if_pos rfl] at hmove
      split at hmove
      · cases hmove
      · rename_i hhas
        cases hmove
        refine ⟨_, .dropped r, { pl with inv := pl.inv.add r (-1) }, ?_, rfl, .dropped hr, ?_, fun t ht =>
          ht.dropped (by omega)⟩
        · simp only [Server.createResponseToCommand, Server.send, Server.modPlayer, Server.modTile, hout,
            List.nil_append]
        · simp [Server.createResponseToCommand, Server.send, Server.modPlayer, Server.modTile, hpl]
  | _ => cases htype

/-! ### Who plays for a connection -/

/-- The player of a client that a login of `K` has registered. -/
def PlaysFor (s : Server) (K : Conn) (q : Addr) : Prop := ∃ c cl, LiveClient s c cl ∧ cl.conn = K ∧ cl.player = q

/-- The clients of `s'` were there in `s`, with other buffers at most, and nobody has logged in. -/
structure SameClients (s s' : Server) : Prop where
  clients : ∀ c cl', LiveClient s' c cl' → ∃ cl, LiveClient s c cl ∧ cl'.identity = cl.identity
  logins : s'.logins = s.logins

theorem SameClients.playsFor (h : SameClients s s') (hq : PlaysFor s' K q) : PlaysFor s K q := by
  obtain ⟨c, cl', hc, hconn, hplayer⟩ := hq
  obtain ⟨cl, hc, hident⟩ := h.clients c cl' hc
  obtain ⟨-, hplayer', hconn'⟩ := Client.identity_eq hident
  exact ⟨c, cl, hc, hconn'.symm.trans hconn, hplayer'.symm.trans hplayer⟩

theorem SameClients.of_eq (hclients : s'.clients = s.clients) (hheap : s'.clientHeap = s.clientHeap)
    (hlogins : s'.logins = s.logins) : SameClients s s' :=
  ⟨fun _ cl' hc => ⟨cl', ⟨by rw [Server.live, ← hclients]; exact hc.live, by rw [← hheap]; exact hc.heap⟩, rfl⟩,
    hlogins⟩

theorem SameClients.refl : SameClients s s := .of_eq rfl rfl rfl

theorem SameClients.trans (h : SameClients s s₂) (h' : SameClients s₂ s') : SameClients s s' := by
  refine ⟨fun c cl' hc => ?_, h'.logins.trans h.logins⟩
  obtain ⟨cl₂, hc₂, hident₂⟩ := h'.clients c cl' hc
  obtain ⟨cl, hc, hident⟩ := h.clients c cl₂ hc₂
  exact ⟨cl, hc, hident₂.trans hident⟩

private theorem Effect.sameClients (he : Effect cfg a s s')
    (ha : ∀ conn fd teamName draw, a ≠ .register conn fd teamName draw) : SameClients s s' := by
  constructor
  case clients =>
    intro c cl' hc
    rcases he.liveClient hc with hold | ⟨conn, fd, teamName, draw, hreg, -⟩
    · exact hold
    · exact absurd hreg (ha _ _ _ _)
  case logins =>
    cases he with
    | enter => exact absurd rfl (ha _ _ _ _)
    | @die _ chance i c cl pl hi hcl hpl hfood => rw [(gamePlayerDie_deceased cfg s c cl hfood).rest]
    | @move _ chance i p q pl ql hpl hql => rw [(movePlayer_same s p (stepAhead s ql.pos ql.dir)).rest]
    | _ => rfl

/-- Every step of the game but a login. -/
private theorem gameStep_sameClients (hwf : BuffersWF s) (h : gameStep cfg s a = some s')
    (ha : ∀ conn fd teamName draw, a ≠ .register conn fd teamName draw) : SameClients s s' := by
  have heff := gameStep_effects hwf h
  clear h
  induction heff with
  | refl => exact .refl
  | tail _ he ih => exact ih.trans (he.sameClients ha)

/-- A player without stones has joined for the connection `k`. -/
structure Newcomer (k : Conn) (s s' : Server) : Prop where
  clients : ∀ c cl', LiveClient s' c cl' → (∃ cl, LiveClient s c cl ∧ cl'.identity = cl.identity) ∨
    cl'.conn = k ∧ cl'.player = s.nextAddr + 1
  logins : s'.logins = s.logins ++ [k]
  stones : s'.stonesOf (s.nextAddr + 1) = some {}

theorem Newcomer.and_then {k : Conn} (h : Newcomer k s s₂) (hsame : SameClients s₂ s')
    (hstones : ∀ q, s'.stonesOf q = s₂.stonesOf q) : Newcomer k s s' := by
  constructor
  case clients =>
    intro c cl' hc
    obtain ⟨cl, hc, hident⟩ := hsame.clients c cl' hc
    obtain ⟨-, hplayer, hconn⟩ := Client.identity_eq hident
    rw [hident, hplayer, hconn]
    exact h.clients c cl hc
  case logins => exact hsame.logins.trans h.logins
  case stones => exact (hstones _).trans h.stones

theorem Newcomer.playsFor {k : Conn} (h : Newcomer k s s') (hq : PlaysFor s' K q) :
    PlaysFor s K q ∨ k = K ∧ q = s.nextAddr + 1 := by
  obtain ⟨c, cl', hc, hconn, hplayer⟩ := hq
  rcases h.clients c cl' hc with ⟨cl, hc, hident⟩ | ⟨hk, hnew⟩
  · obtain ⟨-, hplayer', hconn'⟩ := Client.identity_eq hident
    exact Or.inl ⟨c, cl, hc, hconn'.symm.trans hconn, hplayer'.symm.trans hplayer⟩
  · exact Or.inr ⟨hk.symm.trans hconn, hplayer.symm.trans hnew⟩

private theorem enterGame_newcomer {conn : Conn} {fd : Fd} {teamId : Nat} {draw : StartDraw} :
    Newcomer conn s (enterGame cfg s conn fd teamId draw) := by
  constructor
  case clients =>
    intro c cl' hc
    rcases enterGame_liveClient hc with ⟨-, hc⟩ | ⟨-, rfl⟩
    · exact Or.inl ⟨cl', hc, rfl⟩
    · exact Or.inr ⟨rfl, rfl⟩
  case logins =>
    rw [enterGame_eq, onTile, (addPlayer_same _ _ _).rest]
    rfl
  case stones =>
    have htile : (enterGame cfg s conn fd teamId draw).vitalsOf (s.nextAddr + 1) =
        (allocPlayer cfg s conn fd teamId draw).vitalsOf (s.nextAddr + 1) := by
      rw [enterGame_eq]
      exact congrFun (addPlayer_same _ _ _).vitalsOf _
    rw [stonesOf_of_vitals htile, Server.stonesOf, allocPlayer]
    dsimp only
    rw [Function.update_self]
    rfl

/-- Handling a message lets nobody in, or the one player that a login asks for, who is sent the welcome. -/
theorem Outcome.joins {conn : Conn} {fd : Fd} {draw : StartDraw} {text : Option ClientMessage}
    (h : Outcome cfg s conn fd draw text s') (hwf : BuffersWF s) : SameClients s s' ∨
      Newcomer conn s s' ∧ 0 < loginsIn text.toList ∧ ∃ e ∈ s'.outbox, e.1 = fd ∧ e.2.kind = .welcome := by
  induction h with
  | ignored => exact Or.inl .refl
  | @command msg cmd htext htype =>
    exact Or.inl (gameStep_sameClients (a := .execute conn fd cmd msg.arg) hwf rfl (by simp))
  | @login msg teamName s₁ n htext htype hjoin hlogin =>
    obtain ⟨teamId, t, -, -, -, hentered⟩ := gameRegisterPlayer_success (congrArg Prod.fst hlogin)
    rw [hlogin] at hentered
    obtain rfl : s₁ = enterGame cfg s conn fd teamId draw := hentered
    refine Or.inr ⟨enterGame_newcomer.and_then (.of_eq rfl rfl rfl) fun _ => rfl, ?_, (fd, welcome _ n),
      List.mem_append_right _ List.mem_cons_self, rfl, rfl⟩
    simp [loginsIn, htext, htype]
  | report h type about htype ih =>
    rcases ih with hsame | ⟨hnew, hlogin, e, he, hsent⟩
    · exact Or.inl (hsame.trans (.of_eq rfl rfl rfl))
    · exact Or.inr ⟨hnew.and_then (.of_eq rfl rfl rfl) fun _ => rfl, hlogin, e, List.mem_append_left _ he, hsent⟩

/-- Handling a message changes nobody's stones. -/
theorem Outcome.stones {conn : Conn} {fd : Fd} {draw : StartDraw} {text : Option ClientMessage}
    (h : Outcome cfg s conn fd draw text s') (hreg : Registered s) (hq : (s.playerHeap q).isSome) :
    s'.stonesOf q = s.stonesOf q := by
  induction h with
  | ignored => rfl
  | @command msg cmd htext htype =>
    unfold gameExecuteCommand
    split
    · rfl
    · split
      · rfl
      · cases msg.arg <;> rfl
  | @login msg teamName s₁ n htext htype hjoin hlogin =>
    obtain ⟨teamId, t, -, -, -, hentered⟩ := gameRegisterPlayer_success (congrArg Prod.fst hlogin)
    rw [hlogin] at hentered
    obtain rfl : s₁ = enterGame cfg s conn fd teamId draw := hentered
    refine stonesOf_of_vitals (enterGame_vitals hreg ?_)
    rw [Server.vitalsOf, Option.isSome_map]
    exact hq
  | report h type about htype ih => exact ih

/-! ### Steps of the machine -/

private theorem gameKillPlayer_sameClients (fd : Fd) : SameClients s (gameKillPlayer s fd) := by
  unfold gameKillPlayer
  split
  · exact .refl
  · split
    · exact .refl
    · split
      · exact .refl
      · exact .of_eq rfl rfl rfl

/-- A step lets nobody in, or one player, whose connection is heard and welcomed. -/
theorem machineStep_joins (hwf : BuffersWF m.server) (h : machineStep cfg m act = some m') :
    SameClients m.server m'.server ∨ ∃ k, Newcomer k m.server m'.server ∧
      (k = K → 0 < loginsIn (m.hears K act) ∧ Welcomed (m'.wireTo K)) := by
  have hmessage : ∀ {fd rest text draw k ret s₁}, act = .receive (.text text) draw → m.phase = .scan (fd :: rest) →
      m.heard fd = some k → handleClientMessage cfg m.server k fd draw text = some (ret, s₁) →
      SameClients s₁ m'.server → (∀ q, m'.server.stonesOf q = s₁.stonesOf q) →
      m'.wireTo K = m.wireTo K ++ toConn m.session K s₁.outbox →
      SameClients m.server m'.server ∨ ∃ k, Newcomer k m.server m'.server ∧
        (k = K → 0 < loginsIn (m.hears K act) ∧ Welcomed (m'.wireTo K)) := by
    intro fd rest text draw k ret s₁ hact hphase hheard hmsg hsame hstones hwire
    rcases (handleClientMessage_outcome hmsg).joins hwf with hnobody | ⟨hnew, hlogin, e, he, hfd, hwelcome⟩
    · exact Or.inl (hnobody.trans hsame)
    · refine Or.inr ⟨k, hnew.and_then hsame hstones, ?_⟩
      rintro rfl
      refine ⟨?_, e.2, ?_, hwelcome⟩
      · simpa [Machine.hears, Machine.heardText, hact, hphase, hheard] using hlogin
      · rw [hwire]
        refine List.mem_append_right _ (List.mem_filterMap.2 ⟨e, he, ?_⟩)
        rw [hfd, (Machine.heard_some hheard).2, if_pos rfl]
  cases machineStep_move h with
  | @message fd rest text draw k s₁ hphase hheard hmsg =>
    exact hmessage rfl hphase hheard hmsg (.of_eq rfl rfl rfl) (fun _ => rfl) (wireTo_deliver _ K)
  | @misbehaved fd rest text draw k s₁ hphase hheard hmsg =>
    have hkilled : SameClients { s₁ with outbox := [] } (gameKillPlayer { s₁ with outbox := [] } fd) :=
      gameKillPlayer_sameClients fd
    have hflushed : SameClients s₁ { s₁ with outbox := [] } := .of_eq rfl rfl rfl
    exact hmessage rfl hphase hheard hmsg (hflushed.trans hkilled) (fun _ => gameKillPlayer_stones fd)
      (wireTo_deliver _ K)
  | hangUp | remove => exact Or.inl (gameKillPlayer_sameClients _)
  | @playSlot chance i s₁ hphase hi hplay =>
    have hstep : gameStep cfg m.server (.playSlot chance i) = some s₁ := hplay
    have hturn : SameClients m.server s₁ := gameStep_sameClients hwf hstep (by simp)
    exact Or.inl (hturn.trans (.of_eq rfl rfl rfl))
  | @playServer chance s₁ hphase hplay =>
    have hstep : gameStep cfg m.server (.playServer chance) = some s₁ := hplay
    have hturn : SameClients m.server s₁ := gameStep_sameClients hwf hstep (by simp)
    exact Or.inl (hturn.trans (.of_eq rfl rfl rfl))
  | _ => exact Or.inl (.of_eq rfl rfl rfl)

/-- A step that makes `q` neither take nor put down leaves its stones alone. -/
theorem machineStep_stones (hwf : BuffersWF m.server) (hreg : Registered m.server)
    (h : machineStep cfg m act = some m') (hq : (m.server.playerHeap q).isSome)
    (hlive : (m'.server.playerHeap q).isSome)
    (hnot : ∀ type, m.calls act = some (type, q) → type ≠ .prend ∧ type ≠ .pose) :
    m'.server.stonesOf q = m.server.stonesOf q := by
  cases machineStep_move h with
  | @message fd rest text draw k s₁ hphase hheard hmsg => exact (handleClientMessage_outcome hmsg).stones hreg hq
  | @misbehaved fd rest text draw k s₁ hphase hheard hmsg =>
    have hhandled : s₁.stonesOf q = m.server.stonesOf q := (handleClientMessage_outcome hmsg).stones hreg hq
    exact (gameKillPlayer_stones fd).trans hhandled
  | hangUp | remove => exact gameKillPlayer_stones _
  | @playSlot chance i s₁ hphase hi hplay =>
    have hturn : s₁.stonesOf q = m.server.stonesOf q := by
      refine gamePlaySlot_stones hplay hlive fun ev hev hmoves => ?_
      obtain ⟨hdata, hcb⟩ := hmoves
      have hcalls : ∀ type, ev.callback = some (.command type) → m.calls (.playSlot chance) = some (type, q) := by
        intro type htype
        simp [Machine.calls, hphase, hev, htype, hdata]
      rcases hcb with hcb | hcb
      · exact (hnot _ (hcalls _ hcb)).1 rfl
      · exact (hnot _ (hcalls _ hcb)).2 rfl
    exact hturn
  | @playServer chance s₁ hphase hplay =>
    change Option.map _ (s₁.playerHeap q) = _
    rw [(processServer_same hwf hplay).2.2.1]
    rfl
  | _ => rfl

theorem Machine.calls_some {type : CommandType} (h : m.calls act = some (type, p)) : ∃ chance i ev,
    act = .playSlot chance ∧ m.phase = .play i ∧ executed m.server (.playSlot chance i) = some ev ∧
      ev.callback = some (.command type) ∧ ev.data = some p := by
  cases act with
  | playSlot chance =>
    simp only [Machine.calls] at h
    split at h
    · rename_i i hphase
      obtain ⟨ev, hev, h⟩ := Option.bind_eq_some_iff.1 h
      split at h
      · rename_i type' htype
        obtain ⟨p', hdata, hpair⟩ := Option.map_eq_some_iff.1 h
        obtain ⟨rfl, rfl⟩ := Prod.mk.inj hpair
        exact ⟨chance, i, ev, rfl, hphase, hev, htype, hdata⟩
      · cases h
    · cases h
  | _ => cases h

/-- What a step that calls a command function does to the players, and what it writes to `K`. -/
theorem machineStep_called {type : CommandType} (hwf : BuffersWF m.server) (h : machineStep cfg m act = some m')
    (hcalls : m.calls act = some (type, p)) : SameClients m.server m'.server ∧
    ∃ pl c b ev fuel s₂, m.server.playerHeap p = some pl ∧
      runCommand cfg fuel (m.server.setClientBuffer c b) p pl ev type = some s₂ ∧
      m'.server.playerHeap = s₂.playerHeap ∧ m'.wireTo K = m.wireTo K ++ toConn m.session K s₂.outbox := by
  obtain ⟨chance, i, ev, rfl, hphase, hev, htype, hdata⟩ := Machine.calls_some hcalls
  cases machineStep_move h with
  | @playSlot _ i' s₁ hphase' hi hplay =>
    obtain rfl : i = i' := by
      rw [hphase] at hphase'
      cases hphase'
      rfl
    have hstep : gameStep cfg m.server (.playSlot chance i) = some s₁ := hplay
    have hturn : SameClients m.server s₁ := gameStep_sameClients hwf hstep (by simp)
    refine ⟨hturn.trans (.of_eq rfl rfl rfl), ?_⟩
    rcases gamePlaySlot_executed hplay with ⟨hnone, -⟩ | ⟨ev', c, b, s₂, hev', hcall, hheap, -, hout⟩
    · rw [hev] at hnone
      cases hnone
    · obtain rfl : ev = ev' := Option.some.inj (hev.symm.trans hev')
      simp only [runCallback, htype, hdata, Option.bind_some, Option.bind_eq_some_iff] at hcall
      obtain ⟨pl, hpl, hrun⟩ := hcall
      have hwire := wireTo_deliver { m with server := s₁, phase := .play (i + 1) } K
      dsimp only at hwire
      rw [hout] at hwire
      exact ⟨pl, c, b, ev, chance.fuel, s₂, hpl, hrun, hheap, hwire⟩

end Zappy

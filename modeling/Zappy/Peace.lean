import Zappy.Ai
import Zappy.CommandOrder

/-!
# A server whose players only walk, look and take

The six commands that the AI sends concern nobody but their own player.  As long as no other command is queued, the
players stay on level 1, and the server writes plain messages only: greetings, refusals, welcomes, farewells, and
answers of a known form.  None of them is a notice.
-/

namespace Zappy

open Run

variable {cfg : Config} {m m' : Machine} {act : MachineAction} {s s' s₁ : Server} {fd : Fd} {msg : Json}
  {width height : Nat}

/-! ### Levels -/

/-- Every player is on level 1. -/
def AllFirst (s : Server) : Prop := ∀ p level, s.levelOf p = some level → level = 1

private theorem AllFirst.keep (h : AllFirst s) (hkeep : KeepLevels s s') : AllFirst s' := by
  intro p level hp
  rcases hkeep.level p level hp with hold | ⟨-, hone⟩
  · exact h p level hold
  · exact hone

/-- Outside the turns nobody rises. -/
private theorem GameRun.allFirst (hrun : GameRun cfg m act s) (hwf : BuffersWF m.server) (hreg : Registered m.server)
    (h : AllFirst m.server) (hact : ∀ chance, act ≠ .playSlot chance) : AllFirst s := by
  refine hrun.registered_invariant (I := AllFirst) ?_ hwf hreg h
  intro s a s' hstep hin hwf _ hI
  refine hI.keep (NoRitual.of_effects (gameStep_effects hwf hstep) fun chance i ha => ?_).toKeepLevels
  exact hact chance (hin.turn chance i ha)

/-! ### Plain messages -/

/-- What the server writes when its players only walk, look and take. -/
inductive Plain (width height : Nat) : Json → Prop
  | report {type : String} (about : String) (h : type ∈ ["bienvenue", "error", "ok", "ko"]) :
      Plain width height [("type", .str type), ("msg", .str about)]
  | welcome (s : Server) (n : Int) (hx : s.mapX = width) (hy : s.mapY = height) : Plain width height (welcome s n)
  | walked {cmd : String} (arg : Option String) (h : cmd ∈ ["avance", "droite", "gauche"]) :
      Plain width height (response cmd arg (some "ok"))
  | saw {msg : Json} (h : FirstLevel msg) : Plain width height msg
  | held (inv : Inventory) :
      Plain width height [("type", .str "response"), ("cmd", .str "inventaire"), ("inventaire", .numbers inv.fields)]
  | took {item status : String} (h : status = "ok" → (Resource.fromString item).isSome) :
      Plain width height (response "prend" (some item) (some status))
  | farewell : Plain width height (response "-" (some "die") none)

theorem kind_firstLevel (h : FirstLevel msg) : msg.kind = .answer := by
  obtain ⟨s, pl, hanswer, -⟩ := h
  obtain ⟨data, rfl, -⟩ := voirAnswer_spec hanswer
  rfl

/-- No plain message is a notice. -/
theorem Plain.kind (h : Plain width height msg) : msg.kind ≠ .notice := by
  cases h with
  | report about htype =>
    simp only [List.mem_cons, List.not_mem_nil, or_false] at htype
    rcases htype with rfl | rfl | rfl | rfl <;> exact Kind.noConfusion
  | welcome => exact Kind.noConfusion
  | @walked cmd arg hcmd =>
    rw [kind_response]
    simp only [List.mem_cons, List.not_mem_nil, or_false] at hcmd
    rcases hcmd with rfl | rfl | rfl <;> exact Kind.noConfusion
  | saw hfirst =>
    rw [kind_firstLevel hfirst]
    exact Kind.noConfusion
  | held => exact Kind.noConfusion
  | took =>
    rw [kind_response]
    exact Kind.noConfusion
  | farewell => exact Kind.noConfusion

/-! ### Turns -/

private theorem commandTransfer_plain {p : Addr} {pl : Player} {arg : Option Arg} :
    OnlySends (Plain width height) s (commandTransfer "prend" (-1) s p pl arg) := by
  have hko : ∀ item, Plain width height (response "prend" (some item) (some "ko")) := fun item =>
    .took fun h => absurd h (by decide)
  unfold commandTransfer
  split
  · exact OnlySends.refl.send _ (hko _)
  · split
    · exact OnlySends.refl.send _ (hko _)
    · rename_i type htype
      split
      · exact OnlySends.refl.send _ (hko _)
      · rename_i s₁ hmove
        have hitems : OnlySends (Plain width height) s s₁ := by
          refine .of_outbox ?_
          simp only [helperItemsToTiles] at hmove
          split_ifs at hmove <;> cases hmove <;> rfl
        refine hitems.send _ (.took fun _ => ?_)
        rw [fromString_resource htype]
        rfl

/-- The six commands send one plain answer. -/
private theorem runCommand_plain {fuel : Nat} {p : Addr} {pl : Player} {ev : Event} {type : CommandType}
    (htype : type ∈ AI.commands) (hone : pl.level = 1) (h : runCommand cfg fuel s p pl ev type = some s') :
    OnlySends (Plain width height) s s' := by
  cases type with
  | avance =>
    cases h
    have hmove : OnlySends (Plain width height) s (gameMovePlayer s p (stepAhead s pl.pos pl.dir)) :=
      .of_outbox (movePlayer_same ..).outbox
    exact hmove.send _ (.walked _ (by decide))
  | droite =>
    cases h
    have hturn : OnlySends (Plain width height) s (s.modPlayer p fun r => { r with dir := turnRight pl.dir }) :=
      .of_outbox rfl
    exact hturn.send _ (.walked _ (by decide))
  | gauche =>
    cases h
    have hturn : OnlySends (Plain width height) s (s.modPlayer p fun r => { r with dir := turnLeft pl.dir }) :=
      .of_outbox rfl
    exact hturn.send _ (.walked _ (by decide))
  | voir =>
    simp only [runCommand, commandVoir_eq, Option.map_eq_some_iff] at h
    obtain ⟨vision, hvision, rfl⟩ := h
    refine OnlySends.refl.send _ (.saw ⟨s, pl, ?_, hone⟩)
    rw [voirAnswer, hvision, Option.map_some]
  | inventaire =>
    cases h
    exact OnlySends.refl.send _ (.held _)
  | prend =>
    cases h
    exact commandTransfer_plain
  | _ => exact absurd htype (by decide)

/-- What a turn or a callback may do. -/
structure Peaceful (width height : Nat) (s s' : Server) : Prop where
  levels : KeepLevels s s'
  sends : OnlySends (Plain width height) s s'

theorem Peaceful.of_eq (haddr : s.nextAddr ≤ s'.nextAddr) (hlevel : s'.levelOf = s.levelOf)
    (hout : s'.outbox = s.outbox) : Peaceful width height s s' := ⟨.of_eq haddr hlevel, .of_outbox hout⟩

theorem Peaceful.refl : Peaceful width height s s := .of_eq (Nat.le_refl _) rfl rfl

theorem Peaceful.trans (h : Peaceful width height s s₁) (h' : Peaceful width height s₁ s') :
    Peaceful width height s s' := by
  refine ⟨⟨h.levels.addr.trans h'.levels.addr, fun p level hp => ?_⟩, h.sends.trans h'.sends⟩
  rcases h'.levels.level p level hp with hold | ⟨hle, hone⟩
  · exact h.levels.level p level hold
  · exact Or.inr ⟨h.levels.addr.trans hle, hone⟩

/-- The names of the six commands. -/
def soberNames : List String := AI.commands.map CommandType.getName

private theorem sober_of_name {type : CommandType} (h : type.getName ∈ soberNames) : type ∈ AI.commands := by
  revert h
  cases type <;> decide

private theorem runCallback_peaceful {chance : Chance} {ev : Event} (hfirst : AllFirst s)
    (howes : ∀ name, ev.owes = some name → name ∈ soberNames) (h : runCallback cfg chance ev s = some s') :
    Peaceful width height s s' := by
  unfold runCallback at h
  cases hcb : ev.callback with
  | none =>
    rw [hcb] at h
    cases h
    exact .refl
  | some cb =>
    rw [hcb] at h
    cases cb with
    | spawnResources =>
      cases h
      have heff : Effects cfg .flush s (gameSpawnResources cfg chance.counts s ev) := gameSpawnResources_effects _ _
      obtain ⟨-, -, -, hout⟩ := gameSpawnResources_same cfg chance.counts s ev
      exact ⟨(NoRitual.of_effects heff (by simp)).toKeepLevels, .of_outbox hout⟩
    | command type =>
      have htype : type ∈ AI.commands := sober_of_name (howes _ (by rw [Event.owes, hcb]))
      simp only [Option.bind_eq_some_iff] at h
      obtain ⟨p, -, pl, hpl, h⟩ := h
      have hnot : type ≠ .incantation := by
        rintro rfl
        exact absurd htype (by decide)
      refine ⟨(runCommand_control hnot h).noRitual.toKeepLevels, runCommand_plain htype ?_ h⟩
      exact hfirst p pl.level (levelOf_eq hpl)
    | realIncantation =>
      have hname := howes CommandType.incantation.getName (by rw [Event.owes, hcb])
      exact absurd (sober_of_name hname) (by decide)

/-- The turn of a client that is owed the six commands only. -/
private theorem processClient_peaceful {chance : Chance} {c : Addr} {cl : Client} (hwf : BuffersWF s)
    (hcl : s.clientHeap c = some cl) (hfirst : AllFirst s) (howed : ∀ name ∈ cl.eventBuffer.owed, name ∈ soberNames)
    (hrun : processClient cfg chance c s = some s') : Peaceful width height s s' := by
  rcases processClient_cases (hwf.client c cl hcl) hcl hrun with rfl | ⟨ev, hqueued, -, -, s₂, hcall, hend⟩
  · exact .refl
  · have hpop : Peaceful width height s (s.setClientBuffer c cl.eventBuffer.pop) := .of_eq (Nat.le_refl _) rfl rfl
    have hcalled : Peaceful width height (s.setClientBuffer c cl.eventBuffer.pop) s₂ := by
      refine runCallback_peaceful (hfirst.keep hpop.levels) (fun name hname => howed name ?_) hcall
      rw [EventBuffer.owed_cons hqueued, hname]
      exact List.mem_cons_self
    rcases hend with rfl | ⟨addr, cl', j, -, -, -, rfl⟩
    · exact hpop.trans hcalled
    · exact (hpop.trans hcalled).trans (.of_eq (Nat.le_refl _) rfl rfl)

private theorem gamePlayerDie_plain {c : Addr} {cl : Client} {pl : Player} (hfood : pl.inv.nourriture ≤ 0) :
    OnlySends (Plain width height) s (gamePlayerDie cfg s c cl pl).2 := by
  have hburied : ∀ t, OnlySends (Plain width height) t (buried t cl pl) := by
    intro t
    have hremoved : OnlySends (Plain width height) t
        ((freePlayer cl.player (gameRemovePlayerFromTile t cl.player)).record (.removed cl.player pl.inv)) :=
      .of_outbox (removePlayer_same ..).outbox
    exact hremoved.send _ .farewell
  rcases gamePlayerDie_cases cfg s c cl hfood with ⟨-, h⟩ | ⟨s₁, h₁, ⟨-, h⟩ | ⟨s₂, h₂, hend⟩⟩
  · rw [h]
    exact .refl
  · obtain ⟨i, -, rfl⟩ := removeClientFromServer_some h₁
    rw [h]
    exact .of_outbox rfl
  · obtain ⟨i, -, rfl⟩ := removeClientFromServer_some h₁
    obtain ⟨t, -, -, rfl⟩ := teamRemovePlayerFromTeam_some h₂
    have hleft : OnlySends (Plain width height) s (({ s with clients := s.clients.set i none } : Server).modTeam
        pl.teamId fun t =>
          { t with
            players := Function.update t.players t.currentPlayers.toNat 0
            currentPlayers := t.currentPlayers - 1 }) := .of_outbox rfl
    rcases hend with ⟨-, h⟩ | ⟨-, h⟩
    · rw [h]
      exact hleft.trans (hburied _)
    · rw [h, releaseArgs_eq]
      exact (hleft.trans (hburied _)).trans (.of_outbox rfl)

/-- A turn of the table, if a player that may act is owed the six commands only. -/
private theorem gamePlaySlot_peaceful {chance : Chance} {i : Nat} (hwf : BuffersWF s) (hfirst : AllFirst s)
    (howed : ∀ c cl pl, AtSlot s i c cl pl → playerIsAlive pl s.now = true →
      ∀ name ∈ cl.eventBuffer.owed, name ∈ soberNames)
    (hplay : gamePlaySlot cfg chance s i = some s') : Peaceful width height s s' := by
  cases gamePlaySlot_cases hplay with
  | empty => exact .refl
  | eats => exact ⟨(NoRitual.eat _).toKeepLevels, .of_outbox rfl⟩
  | dies hat hdead hfood => exact ⟨(NoRitual.die hfood).toKeepLevels, gamePlayerDie_plain hfood⟩
  | waits => exact .refl
  | @plays c cl pl _ hat halive hdue hrun =>
    exact processClient_peaceful hwf hat.client hfirst (howed c cl pl hat halive) hrun

/-! ### Messages -/

theorem Outcome.plain {conn : Conn} {draw : StartDraw} {text : Option ClientMessage}
    (h : Outcome cfg s conn fd draw text s') : OnlySends (Plain s.mapX s.mapY) s s' := by
  induction h with
  | ignored => exact .refl
  | @command msg cmd htext htype =>
    refine .of_outbox ?_
    unfold gameExecuteCommand
    split
    · rfl
    · split
      · rfl
      · cases msg.arg <;> rfl
  | @login msg teamName s₁ n htext htype hjoin hreg =>
    obtain ⟨teamId, t, -, -, -, hentered⟩ := gameRegisterPlayer_success (congrArg Prod.fst hreg)
    rw [hreg] at hentered
    obtain rfl : s₁ = enterGame cfg s conn fd teamId draw := hentered
    have hsame : (enterGame cfg s conn fd teamId draw).outbox = s.outbox ∧
        (enterGame cfg s conn fd teamId draw).mapX = s.mapX ∧
        (enterGame cfg s conn fd teamId draw).mapY = s.mapY := by
      rw [enterGame_eq, onTile, (addPlayer_same _ _ _).rest]
      exact ⟨rfl, rfl, rfl⟩
    exact (OnlySends.of_outbox hsame.1).send _ (.welcome _ n hsame.2.1 hsame.2.2)
  | report _ type about htype ih =>
    refine ih.send _ (.report about ?_)
    rcases htype with rfl | rfl | rfl <;> decide

/-! ### Steps of the machine -/

/-- A machine whose players are all on level 1, and that has written plain messages only. -/
structure Machine.Peace (width height : Nat) (m : Machine) : Prop where
  placed : Placed width height m.server
  outbox : m.server.outbox = []
  first : AllFirst m.server
  plain : ∀ e ∈ m.wire, Plain width height e.2

/-- What a player that has its turn in the step is owed are the six commands. -/
def Machine.OwesSober (m : Machine) (act : MachineAction) : Prop :=
  ∀ chance i, act = .playSlot chance → m.phase = .play i → ∀ c cl pl, AtSlot m.server i c cl pl →
    playerIsAlive pl m.server.now = true → ∀ name ∈ cl.eventBuffer.owed, name ∈ soberNames

private theorem plain_deliver (hwire : ∀ e ∈ m.wire, Plain width height e.2)
    (hout : OnlySends (Plain width height) s m.server) (hs : s.outbox = []) :
    ∀ e ∈ m.deliver.wire, Plain width height e.2 := by
  intro e he
  rcases List.mem_append.1 he with he | he
  · exact hwire e he
  · obtain ⟨entry, hentry, hk⟩ := List.mem_filterMap.1 he
    obtain ⟨k, -, rfl⟩ := Option.map_eq_some_iff.1 hk
    obtain ⟨out, hserver, hplain⟩ := hout
    rw [hserver, hs, List.nil_append] at hentry
    exact hplain entry hentry

theorem Machine.Peace.step (hw : 0 < width) (hh : 0 < height) (h : m.Peace width height) (hs : m.Sessions)
    (howes : m.OwesSober act) (hstep : machineStep cfg m act = some m') : m'.Peace width height := by
  have hrun := machineStep_server hstep
  have hplaced : Placed width height m'.server :=
    (hrun.invariant (I := fun s => BuffersWF s ∧ Placed width height s)
      (fun s a s' hs _ hI => gameStep_invariant (fun _ _ _ he _ hI => he.placed hw hh hI) hI.1 hI.2 hs)
      ⟨hs.game.wf, h.placed⟩).2
  have hfirst : (∀ chance, act ≠ .playSlot chance) → AllFirst m'.server :=
    hrun.allFirst hs.game.wf hs.game.reg h.first
  have hmessage : ∀ {k fd draw text ret s₁}, handleClientMessage cfg m.server k fd draw text = some (ret, s₁) →
      OnlySends (Plain width height) m.server s₁ := by
    intro k fd draw text ret s₁ hmsg
    have hplain := (handleClientMessage_outcome hmsg).plain
    rwa [h.placed.mapX, h.placed.mapY] at hplain
  refine ⟨hplaced, machineStep_outbox h.outbox hstep, ?_, ?_⟩
  · cases machineStep_move hstep with
    | @playSlot chance i s₁ hphase hi hplay =>
      have hturn : Peaceful width height m.server s₁ :=
        gamePlaySlot_peaceful hs.game.wf h.first (howes chance i rfl hphase) hplay
      exact h.first.keep ⟨hturn.levels.addr, hturn.levels.level⟩
    | _ => exact hfirst (by simp)
  · cases machineStep_move hstep with
    | welcomed hphase hq howner =>
      refine plain_deliver (s := m.server) h.plain ?_ h.outbox
      exact OnlySends.send (.of_outbox rfl) _ (.report _ (by decide))
    | message hphase hheard hmsg => exact plain_deliver h.plain (hmessage hmsg) h.outbox
    | misbehaved hphase hheard hmsg => exact plain_deliver h.plain (hmessage hmsg) h.outbox
    | playSlot hphase hi hplay =>
      exact plain_deliver h.plain (gamePlaySlot_peaceful hs.game.wf h.first (howes _ _ rfl hphase) hplay).sends h.outbox
    | playServer hphase hplay =>
      exact plain_deliver h.plain (.of_outbox (processServer_same hs.game.wf hplay).2.2.2) h.outbox
    | _ => exact h.plain

end Zappy

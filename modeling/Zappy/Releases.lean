import Zappy.CommandLoss
import Zappy.Copies

/-!
# Releases over whole runs (`game.c`, `time_api.c`)

A run is followed with the list of the copies that it has made.  Each copy is in one slot or was released once, unless
a step drops it: a command whose argument finds its client's buffer full, or an incantation whose completion takes the
slot of an argument or finds no room itself.  `game_clean` releases what the slots hold.
-/

namespace Zappy

open Run Slots

variable {cfg : Config} {m m' : Machine} {act : MachineAction} {s s' s₁ : Server} {c a : Addr} {cl : Client}

/-! ### `game_clean` -/

/-- The turn of the first loop of `game_clean` for a slot. -/
def cleanSlot (s : Server) (slot : Option Addr) : Option Server :=
  match slot with
  | none => some s
  | some c => (s.clientHeap c).bind fun cl => (s.playerHeap cl.player).map fun _ =>
    freeClient c (freePlayer cl.player (releaseArgs cl.eventBuffer s))

/-- `game_clean`; the map, which it frees too, is left as it is. -/
def gameClean (s : Server) : Option Server :=
  (s.clients.foldlM cleanSlot s).map fun s₁ => { s₁ with clients := [], teams := [] }

/-- The loop of `game_clean` on slots whose clients are there, each with a player of its own. -/
private theorem cleanSlots_released {slots : List (Option Addr)} (hnodup : slots.reduceOption.Nodup)
    (hthere : ∀ c ∈ slots.reduceOption, ∃ cl, s.clientHeap c = some cl ∧ (s.playerHeap cl.player).isSome)
    (hdistinct : ∀ c ∈ slots.reduceOption, ∀ d ∈ slots.reduceOption, ∀ cl dl, s.clientHeap c = some cl →
      s.clientHeap d = some dl → cl.player = dl.player → c = d) :
    ∃ s', slots.foldlM cleanSlot s = some s' ∧ ∀ a, s'.released.count a =
      s.released.count a + (slots.reduceOption.map fun c => (s.clientBuffer c).holds a).sum := by
  induction slots generalizing s with
  | nil => exact ⟨s, rfl, fun _ => rfl⟩
  | cons slot slots ih =>
    cases slot with
    | none => exact ih hnodup hthere hdistinct
    | some c =>
      rw [List.reduceOption_cons_of_some] at hnodup hthere hdistinct
      obtain ⟨hc, hnodup⟩ := List.nodup_cons.1 hnodup
      obtain ⟨cl, hcl, hplayer⟩ := hthere c List.mem_cons_self
      obtain ⟨pl, hpl⟩ := Option.isSome_iff_exists.1 hplayer
      -- the state after the slot of `c`, whose other clients and players are as they were
      have hstep : cleanSlot s (some c) =
          some (freeClient c (freePlayer cl.player (releaseArgs cl.eventBuffer s))) := by
        simp only [cleanSlot, hcl, hpl, Option.bind_some, Option.map_some]
      have hclient : ∀ d ∈ slots.reduceOption,
          (freeClient c (freePlayer cl.player (releaseArgs cl.eventBuffer s))).clientHeap d = s.clientHeap d := by
        intro d hd
        have hne : d ≠ c := fun he => hc (he ▸ hd)
        rw [releaseArgs_eq]
        exact Function.update_of_ne hne _ _
      have hkept : ∀ d ∈ slots.reduceOption, ∀ dl, s.clientHeap d = some dl →
          (freeClient c (freePlayer cl.player (releaseArgs cl.eventBuffer s))).playerHeap dl.player =
            s.playerHeap dl.player := by
        intro d hd dl hdl
        have hne : dl.player ≠ cl.player := by
          intro he
          have hdc := hdistinct d (List.mem_cons_of_mem _ hd) c List.mem_cons_self dl cl hdl hcl he
          exact hc (hdc ▸ hd)
        rw [releaseArgs_eq]
        exact Function.update_of_ne hne _ _
      obtain ⟨s', hloop, hreleased⟩ := ih
        (s := freeClient c (freePlayer cl.player (releaseArgs cl.eventBuffer s))) hnodup
        (fun d hd => by
          obtain ⟨dl, hdl, hp⟩ := hthere d (List.mem_cons_of_mem _ hd)
          exact ⟨dl, (hclient d hd).trans hdl, by rw [hkept d hd dl hdl]; exact hp⟩)
        (fun d hd e he dl el hdl hel hp => by
          rw [hclient d hd] at hdl
          rw [hclient e he] at hel
          exact hdistinct d (List.mem_cons_of_mem _ hd) e (List.mem_cons_of_mem _ he) dl el hdl hel hp)
      refine ⟨s', by rw [List.foldlM_cons, hstep]; exact hloop, fun a => ?_⟩
      have hfreed : (freeClient c (freePlayer cl.player (releaseArgs cl.eventBuffer s))).released.count a =
          s.released.count a + cl.eventBuffer.holds a := releaseArgs_released cl.eventBuffer s a
      have hrest : (slots.reduceOption.map fun d => ((freeClient c (freePlayer cl.player
          (releaseArgs cl.eventBuffer s))).clientBuffer d).holds a) =
            slots.reduceOption.map fun d => (s.clientBuffer d).holds a := by
        refine List.map_congr_left fun d hd => ?_
        rw [Server.clientBuffer, Server.clientBuffer, hclient d hd]
      rw [hreleased a, hfreed, hrest, List.reduceOption_cons_of_some, List.map_cons, List.sum_cons,
        clientBuffer_eq hcl, Nat.add_assoc]

/-- `game_clean` releases every copy that a slot holds. -/
private theorem gameClean_released (hreg : Registered s) :
    ∃ s', gameClean s = some s' ∧ ∀ a, s'.released.count a = s.released.count a + s.holds a := by
  have hthere : ∀ c ∈ s.clients.reduceOption, ∃ cl, s.clientHeap c = some cl ∧ (s.playerHeap cl.player).isSome := by
    intro c hc
    obtain ⟨cl, pl, hcl, hpl, -⟩ := hreg.client_heap hc
    exact ⟨cl, hcl, by rw [hpl]; rfl⟩
  have hdistinct : ∀ c ∈ s.clients.reduceOption, ∀ d ∈ s.clients.reduceOption, ∀ cl dl, s.clientHeap c = some cl →
      s.clientHeap d = some dl → cl.player = dl.player → c = d := by
    intro c hc d hd cl dl hcl hdl hp
    refine hreg.distinct c hc d hd cl.socketFd dl.socketFd cl.player ?_ ?_
    · rw [Server.clientKey, hcl]
      rfl
    · rw [Server.clientKey, hdl, hp]
      rfl
  obtain ⟨s', hloop, hreleased⟩ := cleanSlots_released hreg.nodup hthere hdistinct
  exact ⟨{ s' with clients := [], teams := [] }, by rw [gameClean, hloop]; rfl, hreleased⟩

/-! ### Messages -/

/-- A message of type `cmd` runs its command and may be answered with an error. -/
private theorem handleClientMessage_runs {conn : Conn} {fd : Fd} {draw : StartDraw} {msg : ClientMessage} {cmd : String}
    {ret : Ret} (htype : msg.type = some "cmd") (hcmd : msg.cmd = some cmd)
    (h : handleClientMessage cfg s conn fd draw (some msg) = some (ret, s₁)) :
    SameCopies (gameExecuteCommand cfg s conn fd cmd msg.arg).2 s₁ := by
  simp only [handleClientMessage, htype, handleCmd, hcmd, Option.map_some, Option.some.injEq] at h
  split at h
  · rename_i s₂ hexec
    cases h
    rw [hexec]
    exact ⟨rfl, rfl, fun _ => rfl, rfl, Nat.le_refl _, rfl, rfl⟩
  · rename_i s₂ hexec
    cases h
    rw [hexec]
    exact .refl s₁

private theorem Outcome.handed_of_no_command {conn : Conn} {fd : Fd} {draw : StartDraw} {text : Option ClientMessage}
    (h : Outcome cfg s conn fd draw text s₁) (hnot : ∀ msg, text = some msg → msg.type ≠ some "cmd")
    (hreg : Registered s) (hs : Orderly s) (hfd : fd ≤ s.maxFd) : Handed s s₁ False := by
  have hsent : ∀ (s₂ : Server) (fd : Fd) (j : Json), SameCopies s₂ (s₂.send fd j) := fun s₂ fd j =>
    ⟨rfl, rfl, fun _ => rfl, rfl, Nat.le_refl _, rfl, rfl⟩
  induction h with
  | ignored => exact (SameCopies.refl s).handed hs
  | @command msg cmd htext htype => exact absurd htype (hnot msg htext)
  | @login msg teamName s₂ n htext htype hjoin hlogin =>
    exact (gameRegisterPlayer_handed hreg hs hfd hlogin).and_then (hsent _ _ _)
  | report _ type about _ ih => exact ih.and_then (hsent _ _ _)

/-- The message is a command that the game refuses, with an argument. -/
def MessageDrops (s : Server) (fd : Fd) (text : Option ClientMessage) : Prop :=
  ∃ msg cmd, text = some msg ∧ msg.type = some "cmd" ∧ msg.cmd = some cmd ∧ Refused s fd cmd msg.arg

private theorem handleClientMessage_handed {conn : Conn} {fd : Fd} {draw : StartDraw} {text : Option ClientMessage}
    {ret : Ret} (hwf : BuffersWF s) (hreg : Registered s) (hs : Orderly s) (hfd : fd ≤ s.maxFd)
    (h : handleClientMessage cfg s conn fd draw text = some (ret, s₁)) : Handed s s₁ (MessageDrops s fd text) := by
  by_cases hcommand : ∃ msg, text = some msg ∧ msg.type = some "cmd"
  · obtain ⟨msg, rfl, htype⟩ := hcommand
    cases hcmd : msg.cmd with
    | none =>
      have hsame : SameCopies s s₁ := by
        simp only [handleClientMessage, htype, handleCmd, hcmd, Option.map_some, Option.some.injEq] at h
        cases h
        exact ⟨rfl, rfl, fun _ => rfl, rfl, Nat.le_refl _, rfl, rfl⟩
      refine (hsame.handed hs).of_iff ⟨False.elim, ?_⟩
      rintro ⟨msg', cmd, htext, -, hcmd', -⟩
      obtain rfl := Option.some.inj htext
      rw [hcmd] at hcmd'
      cases hcmd'
    | some cmd =>
      refine ((gameExecuteCommand_handed hwf hreg hs).and_then (handleClientMessage_runs htype hcmd h)).of_iff ?_
      constructor
      · exact fun hrefused => ⟨msg, cmd, rfl, htype, hcmd, hrefused⟩
      · rintro ⟨msg', cmd', htext, -, hcmd', hrefused⟩
        obtain rfl := Option.some.inj htext
        obtain rfl := Option.some.inj (hcmd.symm.trans hcmd')
        exact hrefused
  · have hnot : ∀ msg, text = some msg → msg.type ≠ some "cmd" := fun msg htext htype => hcommand ⟨msg, htext, htype⟩
    refine ((handleClientMessage_outcome h).handed_of_no_command hnot hreg hs hfd).of_iff ⟨False.elim, ?_⟩
    rintro ⟨msg, -, htext, htype, -⟩
    exact hcommand ⟨msg, htext, htype⟩

/-! ### Steps of the machine -/

/-- The step drops a copy. -/
def Machine.Drops (m : Machine) : MachineAction → Prop
  | .receive (.text text) _ =>
    ∃ fd rest, m.phase = .scan (fd :: rest) ∧ m.heard fd ≠ none ∧ MessageDrops m.server fd text
  | .playSlot chance => ∃ i, m.phase = .play i ∧ SlotDrops m.server chance i
  | _ => False

/-- The tables, the buffers and the descriptors to visit are in order. -/
structure Machine.Sorted (m : Machine) : Prop where
  wf : BuffersWF m.server
  reg : Registered m.server
  orderly : Orderly m.server
  scan : ∀ todo, m.phase = .scan todo → ∀ fd ∈ todo, fd ≤ m.server.maxFd

private theorem deliver_sameCopies (m : Machine) : SameCopies m.server m.deliver.server :=
  ⟨rfl, rfl, fun _ => rfl, rfl, Nat.le_refl _, rfl, rfl⟩

private theorem removeClient_sameCopies (m : Machine) (fd : Fd) : SameCopies m.server (m.removeClient fd).server :=
  gameKillPlayer_sameCopies m.server fd

/-- What is received is handled, or the client is removed. -/
private theorem receive_handed {input : Input} {draw : StartDraw} (h : m.Sorted)
    (hstep : machineStep cfg m (.receive input draw) = some m') :
    Handed m.server m'.server (m.Drops (.receive input draw)) := by
  simp only [machineStep] at hstep
  split at hstep
  · rename_i fd rest hphase
    have hfd : fd ≤ m.server.maxFd := h.scan _ hphase fd List.mem_cons_self
    split at hstep
    · cases hstep
    · unfold Machine.handleClientEvent at hstep
      split at hstep
      · rename_i k text hheard
        have hheard : m.heard fd = some k := hheard
        rw [Option.map_eq_some_iff] at hstep
        obtain ⟨⟨ret, s₁⟩, hmsg, hstep⟩ := hstep
        have hsame : SameCopies s₁ m'.server := by
          cases ret with
          | error =>
            cases hstep
            exact (deliver_sameCopies { m with phase := .scan rest, server := s₁ }).trans (removeClient_sameCopies _ fd)
          | success =>
            cases hstep
            exact deliver_sameCopies { m with phase := .scan rest, server := s₁ }
        refine ((handleClientMessage_handed h.wf h.reg h.orderly hfd hmsg).and_then hsame).of_iff ?_
        constructor
        · exact fun hdrops => ⟨fd, rest, hphase, by rw [hheard]; simp, hdrops⟩
        · rintro ⟨fd', rest', hphase', -, hdrops⟩
          rw [hphase] at hphase'
          cases hphase'
          exact hdrops
      · rename_i input _ _ hdeaf
        cases hstep
        have hsame : SameCopies m.server (({ m with phase := .scan rest } : Machine).removeClient fd).server :=
          removeClient_sameCopies { m with phase := .scan rest } fd
        refine (hsame.handed h.orderly).of_iff ⟨False.elim, ?_⟩
        intro hdrops
        cases input with
        | closed => exact hdrops
        | text text =>
          obtain ⟨fd', rest', hphase', hheard, -⟩ := hdrops
          rw [hphase] at hphase'
          cases hphase'
          obtain ⟨k, hk⟩ := Option.ne_none_iff_exists'.1 hheard
          exact hdeaf k text hk rfl
  · cases hstep

/-- Every step of the machine hands over all copies, unless it drops one. -/
private theorem machineStep_handed (h : m.Sorted) (hstep : machineStep cfg m act = some m') :
    Handed m.server m'.server (m.Drops act) := by
  have hsame : SameCopies m.server m'.server → ¬ m.Drops act → Handed m.server m'.server (m.Drops act) :=
    fun hsame hnot => (hsame.handed h.orderly).of_iff ⟨False.elim, hnot⟩
  cases machineStep_move hstep with
  | hangUp | message | misbehaved => exact receive_handed h hstep
  | tick t => exact hsame ⟨rfl, rfl, fun _ => rfl, rfl, Nat.le_refl _, rfl, rfl⟩ id
  | scanEnd => exact hsame ⟨rfl, rfl, fun _ => rfl, rfl, Nat.le_refl _, rfl, rfl⟩ id
  | @welcomed fd =>
    exact hsame ⟨rfl, rfl, fun _ => rfl, rfl, Nat.le_max_left m.server.maxFd fd, rfl, rfl⟩ id
  | @remove fd k rest => exact hsame (removeClient_sameCopies { m with phase := .drain rest } fd) id
  | @playSlot chance i s₁ hphase hi hplay =>
    refine ((gamePlaySlot_handed h.wf h.reg h.orderly hplay).and_then
      (deliver_sameCopies { m with server := s₁, phase := .play (i + 1) })).of_iff ?_
    constructor
    · exact fun hdrops => ⟨i, hphase, hdrops⟩
    · rintro ⟨j, hphase', hdrops⟩
      rw [hphase] at hphase'
      cases hphase'
      exact hdrops
  | @playServer chance s₁ hphase hplay =>
    exact ((processServer_handed h.wf h.orderly hplay).and_then
      (deliver_sameCopies { m with server := s₁, phase := .lookup })).of_iff ⟨False.elim, id⟩
  | _ => exact hsame (.refl _) id

theorem Machine.Sorted.step (h : m.Sorted) (hstep : machineStep cfg m act = some m') : m'.Sorted := by
  have hrun := machineStep_server hstep
  have hhanded := machineStep_handed h hstep
  refine ⟨hrun.buffersWF h.wf, hrun.registered h.wf h.reg, hhanded.orderly, ?_⟩
  intro todo hphase' fd hfd
  have hkept : ∀ {todo}, m.phase = .scan todo → fd ∈ todo → fd ≤ m'.server.maxFd :=
    fun hphase hmem => Nat.le_trans (h.scan _ hphase fd hmem) hhanded.maxFd
  cases machineStep_move hstep with
  | select hphase hready =>
    simp only [machineStep] at hstep
    split at hstep
    · rename_i hok
      cases hphase'
      exact (hok.2.2.2 fd hfd).2
    · cases hstep
  | acceptFailed hphase | accept hphase | hangUp hphase | message hphase | misbehaved hphase =>
    cases hphase'
    exact hkept hphase (List.mem_cons_of_mem _ hfd)
  | tick | handshakeReady | handshakeFailed | handshakeLost | welcomed | refused => exact hkept hphase' hfd
  | _ => cases hphase'

private theorem sorted_init (width height : Nat) (teams : List String) (nbClients : Nat)
    (counts : Nat → InventoryType → Nat) : (machineInit cfg width height teams nbClients counts).Sorted where
  wf := buffersWF_init _ _ _
  reg := registered_init _ _ _ _ _
  orderly := by
    refine ⟨fun _ _ hc => (by cases hc.heap), fun i => ?_⟩
    simp only [machineInit, gameInit]
    split
    · cases hsched : timeApiScheduleClientEvent 0 {} cfg.spawnPeriod (some .spawnResources) none none 0 with
      | none => rfl
      | some b => exact schedule_noArg hsched (fun _ => rfl) rfl i
    · rfl
  scan := fun _ hphase => by cases hphase

/-! ### Runs -/

/-- A step of the machine, with the copies made so far. -/
def tracedStep (cfg : Config) (t : Machine × List Addr) (act : MachineAction) : Option (Machine × List Addr) :=
  (machineStep cfg t.1 act).map fun m => (m, t.2 ++ t.1.server.copied m.server)

/-- Every copy made lies in one slot of a live client or was released, not both and not twice, no slot outside a
queued window holds one, and `game_clean` leaves every copy released once. -/
structure CopiesOwned (t : Machine × List Addr) : Prop where
  nodup : t.2.Nodup
  once : ∀ a, t.1.server.released.count a + t.1.server.holds a = t.2.count a
  tidy : ∀ c cl, LiveClient t.1.server c cl → cl.eventBuffer.Tidy
  clean : ∃ s, gameClean t.1.server = some s ∧ ∀ a, s.released.count a = t.2.count a

/-- What a run keeps as long as it drops no copy. -/
structure Traced (t : Machine × List Addr) : Prop where
  sorted : t.1.Sorted
  old : ∀ a ∈ t.2, a < t.1.server.nextAddr
  nodup : t.2.Nodup
  once : ∀ a, t.1.server.released.count a + t.1.server.holds a = t.2.count a

private theorem copied_new (h : a ∈ s.copied s') : s.nextAddr ≤ a ∧ a < s.nextAddr + (s'.nextAddr - s.nextAddr) := by
  have hmem := List.mem_of_mem_filter h
  rw [List.mem_range'_1] at hmem
  exact hmem

/-- After a step the copies are owned exactly if the step has dropped none. -/
theorem Traced.step {t t' : Machine × List Addr} (h : Traced t) (hstep : tracedStep cfg t act = some t') :
    (CopiesOwned t' ↔ ¬ t.1.Drops act) ∧ (CopiesOwned t' → Traced t') := by
  obtain ⟨m', hm, rfl⟩ := Option.map_eq_some_iff.1 hstep
  have hsorted := h.sorted.step hm
  have hhanded := machineStep_handed h.sorted hm
  obtain ⟨lost, hbalance, hlost⟩ := hhanded.balance
  have hnodup : (t.2 ++ t.1.server.copied m'.server).Nodup := by
    refine List.nodup_append.2 ⟨h.nodup, (List.nodup_range' ..).filter _, fun a ha b hb => ?_⟩
    exact Nat.ne_of_lt (Nat.lt_of_lt_of_le (h.old a ha) (copied_new hb).1)
  have hold : ∀ a ∈ t.2 ++ t.1.server.copied m'.server, a < m'.server.nextAddr := by
    intro a ha
    rcases List.mem_append.1 ha with ha | ha
    · exact Nat.lt_of_lt_of_le (h.old a ha) hhanded.nextAddr
    · have hlt := (copied_new ha).2
      have hle := hhanded.nextAddr
      exact Nat.lt_of_lt_of_eq hlt (Nat.add_sub_cancel' hle)
  have hsum : ∀ a, m'.server.released.count a + m'.server.holds a + lost.count a =
      (t.2 ++ t.1.server.copied m'.server).count a := by
    intro a
    rw [hbalance a, h.once a, List.count_append]
  refine ⟨⟨fun hq => ?_, fun hnot => ?_⟩, fun hq => ⟨hsorted, hold, hnodup, hq.once⟩⟩
  · refine hlost.1 (List.eq_nil_iff_forall_not_mem.2 fun a ha => ?_)
    have hpos := List.count_pos_iff.2 ha
    have hall := hsum a
    have honce : m'.server.released.count a + m'.server.holds a = (t.2 ++ t.1.server.copied m'.server).count a :=
      hq.once a
    omega
  · have hnil := hlost.2 hnot
    have honce : ∀ a, m'.server.released.count a + m'.server.holds a =
        (t.2 ++ t.1.server.copied m'.server).count a := by
      intro a
      rw [← hsum a, hnil, List.count_nil, Nat.add_zero]
    obtain ⟨s, hclean, hreleased⟩ := gameClean_released hsorted.reg
    exact ⟨hnodup, honce, fun c cl hc => (hsorted.orderly.client c cl hc).tidy, s, hclean,
      fun a => (hreleased a).trans (honce a)⟩

/-- Every copy is released once, at the latest when its client leaves or by `game_clean`, exactly in the runs none of
whose steps drops one. -/
theorem copies_released_once (cfg : Config) (width height : Nat) (teams : List String) (nbClients : Nat)
    (counts : Nat → InventoryType → Nat) (as : List MachineAction) :
    AllSteps (tracedStep cfg) (fun _ _ t => CopiesOwned t)
        (machineInit cfg width height teams nbClients counts, []) as ↔
      AllSteps (tracedStep cfg) (fun t act _ => ¬ t.1.Drops act)
        (machineInit cfg width height teams nbClients counts, []) as := by
  refine AllSteps.congr (I := Traced) (fun t act t' hstep hI => (hI.step hstep).1)
    (fun t act t' hstep hI => (hI.step hstep).2)
    ⟨sorted_init _ _ _ _ _, fun a ha => (by cases ha), List.nodup_nil, ?_⟩ as
  intro a
  have hlive : (machineInit cfg width height teams nbClients counts).server.live = [] := by
    rw [Server.live]
    exact List.reduceOption_replicate_none
  rw [Server.holds, hlive]
  rfl

def takeLinemate : ClientMessage := { type := "cmd", cmd := "prend", arg := "linemate" }

/-- Ten commands fill the buffer of a player, and an eleventh has an argument. -/
def eleventhArgument : List MachineAction :=
  oneLogin ++ (List.replicate 10 (scanPass [4] [.receive (.text (some look)) ⟨0, 0, 0⟩] 0)).flatten ++
    scanPass [4] [.receive (.text (some takeLinemate)) ⟨0, 0, 0⟩] 0

/-- The copy of the eleventh command's argument is in no slot and is not released, not even by `game_clean`. -/
theorem eleventh_argument_dropped : ∃ t,
    run (tracedStep shippedConfig) (shippedMachine, []) eleventhArgument = some t ∧ t.2 = [2] ∧ ¬ CopiesOwned t := by
  have hrun : (run (tracedStep shippedConfig) (shippedMachine, []) eleventhArgument).map
      (fun t => (t.2, t.1.server.released, t.1.server.holds 2)) = some ([2], [], 0) := by decide +kernel
  obtain ⟨t, ht, hfacts⟩ := Option.map_eq_some_iff.1 hrun
  simp only [Prod.mk.injEq] at hfacts
  obtain ⟨hmade, hreleased, hholds⟩ := hfacts
  refine ⟨t, ht, hmade, fun howned => ?_⟩
  have honce := howned.once 2
  rw [hmade, hreleased, hholds] at honce
  exact absurd honce (by decide)

end Zappy

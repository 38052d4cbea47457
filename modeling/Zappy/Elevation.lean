import Zappy.Conservation
import Zappy.Lib.Matching
import Mathlib.Algebra.Order.BigOperators.Group.Finset

/-!
# Levels and paid rituals

A level rises by one, and only in `m_command_real_incantation`, for the players of one level on one tile.  Payment
and completion are two events of one buffer; the invariant `Paid` counts, for each player and level, the
completions that are queued or done against the payments in the ledger.
-/

namespace Zappy

open LinkedList Relation Run Slots

variable {cfg : Config} {a : GameAction} {s s' : Server} {width height : Nat}

/-! ### Levels -/

theorem levelOf_eq {p : Addr} {pl : Player} (hpl : s.playerHeap p = some pl) : s.levelOf p = some pl.level := by
  simp [Server.levelOf, hpl]

/-- Every level lies between 1 and `LEVEL_MAX`. -/
def Levels (s : Server) : Prop := ∀ p level, s.levelOf p = some level → 1 ≤ level ∧ level ≤ levelMax

/-- No player has another level, and a new player is on level 1. -/
structure KeepLevels (s s' : Server) : Prop where
  addr : s.nextAddr ≤ s'.nextAddr
  level : ∀ p level, s'.levelOf p = some level → s.levelOf p = some level ∨ s.nextAddr ≤ p ∧ level = 1

theorem KeepLevels.of_eq (haddr : s.nextAddr ≤ s'.nextAddr) (hlevel : s'.levelOf = s.levelOf) : KeepLevels s s' :=
  ⟨haddr, fun p level h => Or.inl (by rw [← hlevel]; exact h)⟩

/-- All levels are kept, and no incantation is paid for or completed. -/
structure NoRitual (s s' : Server) : Prop extends KeepLevels s s' where
  ledger : ∃ new, s'.ledger = s.ledger ++ new ∧ ∀ p level, .ritual p level ∉ new ∧ .completed p level ∉ new

theorem NoRitual.of_eq (haddr : s.nextAddr ≤ s'.nextAddr) (hlevel : s'.levelOf = s.levelOf)
    (hledger : s'.ledger = s.ledger) : NoRitual s s' :=
  ⟨.of_eq haddr hlevel, [], by rw [hledger, List.append_nil], fun _ _ => ⟨List.not_mem_nil, List.not_mem_nil⟩⟩

theorem NoRitual.refl (s : Server) : NoRitual s s := .of_eq (Nat.le_refl _) rfl rfl

theorem NoRitual.trans {s₁ s₂ s₃ : Server} (h : NoRitual s₁ s₂) (h' : NoRitual s₂ s₃) : NoRitual s₁ s₃ := by
  refine ⟨⟨Nat.le_trans h.addr h'.addr, fun p level hp => ?_⟩, ?_⟩
  · rcases h'.level p level hp with h₂ | ⟨hle, h1⟩
    · exact h.level p level h₂
    · exact Or.inr ⟨Nat.le_trans h.addr hle, h1⟩
  · obtain ⟨new, hnew, hno⟩ := h.ledger
    obtain ⟨new', hnew', hno'⟩ := h'.ledger
    refine ⟨new ++ new', by rw [hnew', hnew, List.append_assoc], fun p level => ?_⟩
    simp only [List.mem_append, not_or]
    exact ⟨⟨(hno p level).1, (hno' p level).1⟩, ⟨(hno p level).2, (hno' p level).2⟩⟩

theorem SameControl.noRitual {p : Addr} (h : SameControl p s s') : NoRitual s s' :=
  .of_eq (by rw [h.rest]) h.level (by rw [h.rest])

theorem NoRitual.send (fd : Fd) (j : Json) : NoRitual s (s.send fd j) := .of_eq (Nat.le_refl _) rfl rfl

/-- An entry that is neither a payment nor a completion. -/
theorem NoRitual.record {e : Entry} (he : ∀ p level, e ≠ .ritual p level ∧ e ≠ .completed p level) :
    NoRitual s (s.record e) :=
  ⟨.of_eq (Nat.le_refl _) rfl, [e], rfl, fun p level =>
    ⟨fun h => (he p level).1 (List.mem_singleton.1 h).symm, fun h => (he p level).2 (List.mem_singleton.1 h).symm⟩⟩

theorem NoRitual.modPlayer (p : Addr) {f : Player → Player} (hf : ∀ r, (f r).level = r.level) :
    NoRitual s (s.modPlayer p f) :=
  .of_eq (Nat.le_refl _) (modPlayer_levelOf p hf) rfl

theorem NoRitual.eat (p : Addr) : NoRitual s (eat cfg s p) :=
  (NoRitual.modPlayer p (f := fun r =>
    { r with
      inv := { r.inv with nourriture := r.inv.nourriture - 1 }
      dieTime := u64 (r.dieTime + cfg.lifeUnit) }) fun _ => rfl).trans (.record fun _ _ => by simp)

theorem NoRitual.buried (cl : Client) (pl : Player) : NoRitual s (buried s cl pl) := by
  have hfree : NoRitual (gameRemovePlayerFromTile s cl.player)
      (freePlayer cl.player (gameRemovePlayerFromTile s cl.player)) := by
    refine ⟨⟨Nat.le_refl _, fun p level hp => Or.inl ?_⟩, [], (List.append_nil _).symm, by simp⟩
    simp only [Server.levelOf, freePlayer, Function.update_apply] at hp
    split at hp
    · cases hp
    · exact hp
  exact (((removePlayer_same s cl.player).control cl.player).noRitual.trans hfree).trans
    ((NoRitual.record fun _ _ => by simp).trans (NoRitual.send _ _))

theorem NoRitual.die {c : Addr} {cl : Client} {pl : Player} (hfood : pl.inv.nourriture ≤ 0) :
    NoRitual s (gamePlayerDie cfg s c cl pl).2 := by
  rcases gamePlayerDie_cases cfg s c cl hfood with
    ⟨-, h⟩ | ⟨s₁, h₁, ⟨-, h⟩ | ⟨s₂, h₂, hend⟩⟩
  · rw [h]; exact .refl s
  · obtain ⟨i, -, rfl⟩ := removeClientFromServer_some h₁
    rw [h]; exact .of_eq (Nat.le_refl _) rfl rfl
  · obtain ⟨i, -, rfl⟩ := removeClientFromServer_some h₁
    obtain ⟨t, -, -, rfl⟩ := teamRemovePlayerFromTeam_some h₂
    have hleft : NoRitual s (({ s with clients := s.clients.set i none } : Server).modTeam pl.teamId fun t =>
        { t with
          players := Function.update t.players t.currentPlayers.toNat 0
          currentPlayers := t.currentPlayers - 1 }) := .of_eq (Nat.le_refl _) rfl rfl
    rcases hend with ⟨-, h⟩ | ⟨-, h⟩
    · rw [h]; exact hleft.trans (.buried cl pl)
    · rw [h, releaseArgs_eq]
      exact (hleft.trans (.buried cl pl)).trans (.of_eq (Nat.le_refl _) rfl rfl)

theorem NoRitual.enter (conn : Conn) (fd : Fd) (teamId : Nat) (draw : StartDraw) :
    NoRitual s (enterGame cfg s conn fd teamId draw) := by
  have halloc : NoRitual s (allocPlayer cfg s conn fd teamId draw) := by
    refine ⟨⟨Nat.le_add_right _ 2, fun p level hp => ?_⟩, [], (List.append_nil _).symm, by simp⟩
    simp only [Server.levelOf, allocPlayer, Function.update_apply] at hp
    split at hp
    · rename_i hpe
      cases hp
      exact Or.inr ⟨by rw [hpe]; exact Nat.le_succ _, rfl⟩
    · exact Or.inl hp
  have htile : NoRitual s (onTile cfg s conn fd teamId draw) :=
    halloc.trans ((addPlayer_same _ _ _).control (s.nextAddr + 1)).noRitual
  rw [enterGame_eq]
  exact htile.trans (.of_eq (Nat.le_refl _) rfl rfl)

/-- Outside the loop of `game_play` no incantation is paid for or completed. -/
theorem Effect.noRitual (he : Effect cfg a s s') (ha : ∀ chance i, a ≠ .playSlot chance i) : NoRitual s s' := by
  cases he with
  | quiet _ _ _ _ _ _ haddr => exact .of_eq haddr rfl rfl
  | takeRemovals => exact .of_eq (Nat.le_refl _) rfl rfl
  | serverBuffer b hb => exact .of_eq (Nat.le_refl _) rfl rfl
  | enter hname ht hfull => exact .enter _ _ _ _
  | schedule hc hcl hb => exact .of_eq (Nat.le_refl _) rfl rfl
  | kill hc hcl hpl =>
    exact (NoRitual.modPlayer _ (f := fun r => { r with dieTime := 0, inv := { r.inv with nourriture := 0 } })
      fun _ => rfl).trans (.record fun _ _ => by simp)
  | spawn n counts =>
    have htile : NoRitual s (s.modTile (s.mapIndex ⟨n % s.mapSize % s.mapX, n % s.mapSize / s.mapX⟩) fun tile =>
        { tile with items := tile.items.plus (inventoryOf counts) }) := .of_eq (Nat.le_refl _) rfl rfl
    exact htile.trans (.record fun _ _ => by simp)
  | _ => exact absurd rfl (ha _ _)

theorem NoRitual.of_effects (he : Effects cfg a s s') (ha : ∀ chance i, a ≠ .playSlot chance i) : NoRitual s s' := by
  induction he with
  | refl => exact .refl s
  | tail _ he ih => exact ih.trans (he.noRitual ha)

/-- What a write does to levels: nothing, or one player below `LEVEL_MAX` rises by one. -/
theorem Effect.level_cases (he : Effect cfg a s s') :
    KeepLevels s s' ∨ s'.nextAddr = s.nextAddr ∧ ∃ p level, level < levelMax ∧ s.levelOf p = some level ∧
      s'.levelOf = Function.update s.levelOf p (some (level + 1)) := by
  cases he with
  | quiet _ _ _ _ _ _ haddr => exact Or.inl <| .of_eq haddr rfl
  | enter hname ht hfull => exact Or.inl (NoRitual.enter _ _ _ _).toKeepLevels
  | die hi hcl hpl hfood => exact Or.inl (NoRitual.die hfood).toKeepLevels
  | kill hc hcl hpl => exact Or.inl <| .of_eq (Nat.le_refl _) (modPlayer_levelOf _ fun _ => rfl)
  | eat hi hcl hpl hfood => exact Or.inl <| .of_eq (Nat.le_refl _) (modPlayer_levelOf _ fun _ => rfl)
  | turn dir hpl => exact Or.inl <| .of_eq (Nat.le_refl _) (modPlayer_levelOf _ fun _ => rfl)
  | take hpl hr => exact Or.inl <| .of_eq (Nat.le_refl _) (modPlayer_levelOf (s := s.modTile _ _) _ fun _ => rfl)
  | put hpl hr => exact Or.inl <| .of_eq (Nat.le_refl _) (modPlayer_levelOf (s := s.modTile _ _) _ fun _ => rfl)
  | @move _ chance i p q pl ql hpl hql =>
    have h := movePlayer_same s p (stepAhead s ql.pos ql.dir)
    exact Or.inl <| .of_eq (by rw [h.rest]) h.levelOf
  | @levelUp _ chance i p pl hpl hlevel =>
    refine Or.inr ⟨rfl, p, pl.level, hlevel, levelOf_eq hpl, ?_⟩
    funext q
    simp only [Server.levelOf, modPlayer_heap, Function.update_apply]
    split
    · rename_i hq; rw [hq, hpl]; rfl
    · rfl
  | _ => exact Or.inl <| .of_eq (Nat.le_refl _) rfl

theorem Effect.levels (he : Effect cfg a s s') (h : Levels s) : Levels s' := by
  intro p level hp
  rcases he.level_cases with hkeep | ⟨-, q, n, hn, hq, hlevel⟩
  · rcases hkeep.level p level hp with h' | ⟨-, rfl⟩
    · exact h p level h'
    · decide
  · rw [hlevel, Function.update_apply] at hp
    split at hp
    · cases hp
      have := h q n hq
      omega
    · exact h p level hp

/-- No run makes a level fall. -/
private theorem level_le_of_run (hwf : BuffersWF s) (hfresh : ∀ p, s.nextAddr ≤ p → s.playerHeap p = none)
    {as : List GameAction} (h : run (gameStep cfg) s as = some s') {p : Addr} {level level' : Int}
    (hp : s.levelOf p = some level) (hp' : s'.levelOf p = some level') : level ≤ level' := by
  have hlt : p < s.nextAddr := by
    by_contra hle
    simp [Server.levelOf, hfresh p (Nat.le_of_not_lt hle)] at hp
  refine ((game_invariant (I := fun s₁ => s.nextAddr ≤ s₁.nextAddr ∧ ∀ n, s₁.levelOf p = some n → level ≤ n)
    (fun a s₁ s₂ he _ hI => ?_) hwf ⟨Nat.le_refl _, fun n hn => ?_⟩ h).2.2) level' hp'
  · rcases he.level_cases with hkeep | ⟨haddr, q, n, -, hq, hlevel⟩
    · refine ⟨Nat.le_trans hI.1 hkeep.addr, fun n hn => ?_⟩
      rcases hkeep.level p n hn with h' | ⟨hle, -⟩
      · exact hI.2 n h'
      · exact absurd (Nat.lt_of_lt_of_le hlt (Nat.le_trans hI.1 hle)) (Nat.lt_irrefl _)
    · refine ⟨by rw [haddr]; exact hI.1, fun m hm => ?_⟩
      rw [hlevel, Function.update_apply] at hm
      split at hm
      · rename_i hpq
        cases hm
        have := hI.2 n (hpq ▸ hq)
        omega
      · exact hI.2 m hm
  · rw [hp] at hn
    cases hn
    exact Int.le_refl _

/-! ### The loops over a tile -/

/-- A list without repetitions is no longer than there are addresses. -/
theorem length_le_of_lt {l : List Addr} {n : Nat} (hnodup : l.Nodup) (hlt : ∀ q ∈ l, q < n) : l.length ≤ n := by
  have hsub : l.toFinset ⊆ Finset.range n := fun q hq => Finset.mem_range.2 (hlt q (List.mem_toFinset.1 hq))
  have := Finset.card_le_card hsub
  rwa [List.toFinset_card_of_nodup hnodup, Finset.card_range] at this

/-- The list of a player's tile. -/
theorem Placed.own_list (h : Placed width height s) {p : Addr} {pl : Player} (hpl : s.playerHeap p = some pl) :
    ∃ l, IsList s.nextOf s.prevOf (s.map (s.mapIndex pl.pos)).players l ∧ p ∈ l ∧
      (∀ q ∈ l, (s.playerHeap q).isSome) ∧ l.length ≤ s.nextAddr := by
  obtain ⟨-, -, hfresh, L, hL⟩ := h
  obtain ⟨ht, hp⟩ := hL.mem_own (p := p) (by simp [Server.posOf, hpl]) hpl
  have hlive : ∀ q ∈ L (s.mapIndex pl.pos), (s.playerHeap q).isSome := fun q hq => hL.live ht hq
  refine ⟨_, hL.list _ ht, hp, hlive, length_le_of_lt (hL.list _ ht).nodup fun q hq => ?_⟩
  by_contra hle
  have := hlive q hq
  rw [hfresh q (Nat.le_of_not_lt hle)] at this
  cases this

theorem nextOnTile_eq {q : Addr} (hq : (s.playerHeap q).isSome) : s.nextOnTile q = some (s.nextOf q) := by
  obtain ⟨r, hr⟩ := Option.isSome_iff_exists.1 hq
  simp [Server.nextOnTile, Server.nextOf, hr]

/-- The counting loop of `m_game_check_can_incantation` counts the players of one level in the list. -/
theorem countLevel_eq {it : Option Addr} {l : List Addr} (hl : IsList s.nextOf s.prevOf it l)
    (hlive : ∀ q ∈ l, (s.playerHeap q).isSome) (hlen : l.length ≤ s.nextAddr) (level : Int) :
    countLevel s level it = some (l.countP fun q => s.levelOf q = some level) := by
  unfold countLevel
  refine (forEach_eq_foldlM hl.seg ?_ (fun _ _ _ _ => rfl) hlen).trans ?_
  case refine_1 => exact fun q hq => nextOnTile_eq (hlive q hq)
  have hloop : ∀ (l : List Addr) (n : Nat), (∀ q ∈ l, (s.playerHeap q).isSome) →
      l.foldlM (fun n a => (s.playerHeap a).map fun p2 => if p2.level = level then n + 1 else n) n =
        some (n + l.countP fun q => s.levelOf q = some level) := by
    intro l
    induction l with
    | nil => exact fun _ _ => rfl
    | cons q l ih =>
      intro n hlive
      obtain ⟨r, hr⟩ := Option.isSome_iff_exists.1 (hlive q List.mem_cons_self)
      simp only [List.foldlM_cons, hr, Option.map_some, Option.bind_eq_bind, Option.bind_some]
      rw [ih _ fun q hq => hlive q (List.mem_cons_of_mem _ hq), List.countP_cons]
      simp only [Server.levelOf, hr, Option.map_some, Option.some.injEq, decide_eq_true_eq]
      split <;> omega
  rw [hloop l 0 hlive, Nat.zero_add]

theorem gameCheckCanIncantation_count {pl : Player} {checkItems : Bool} {l : List Addr}
    (hl : IsList s.nextOf s.prevOf (s.map (s.mapIndex pl.pos)).players l)
    (hlive : ∀ q ∈ l, (s.playerHeap q).isSome) (hlen : l.length ≤ s.nextAddr)
    (h : gameCheckCanIncantation s pl checkItems = some .success) :
    (levelReqs pl.level).playerNumber ≤ (l.countP fun q => s.levelOf q = some pl.level : Nat) := by
  unfold gameCheckCanIncantation at h
  dsimp only at h
  rw [countLevel_eq hl hlive hlen] at h
  split at h
  · cases h
  · split at h
    · cases h
    · simp only [Option.map_some, Option.some.injEq] at h
      split at h
      · cases h
      · rename_i hcount
        exact Int.not_lt.1 hcount

private theorem levelUpTurn_next {level : Int} {q : Addr} (h : levelUpTurn level s q = some s') :
    s'.nextOnTile = s.nextOnTile := by
  simp only [levelUpTurn, Option.map_eq_some_iff] at h
  obtain ⟨r, -, rfl⟩ := h
  split
  · funext d
    change ((s.modPlayer q _).playerHeap d).map Player.nextOnTile = _
    rw [modPlayer_heap]
    split
    · simp only [Server.nextOnTile, Option.map_map]; rfl
    · rfl
  · rfl

/-- The loop of `m_command_real_incantation` lifts the players of one level in the list, and nobody else. -/
theorem levelUpLoop_levels {it : Option Addr} {l : List Addr} {level : Int}
    (hl : IsList s.nextOf s.prevOf it l) (hlive : ∀ q ∈ l, (s.playerHeap q).isSome) (hlen : l.length ≤ s.nextAddr)
    (h : levelUpLoop s level it = some s') (q : Addr) :
    s'.levelOf q = if q ∈ l ∧ s.levelOf q = some level then some (level + 1) else s.levelOf q := by
  unfold levelUpLoop at h
  rw [forEach_eq_foldlM hl.seg (fun q hq => nextOnTile_eq (hlive q hq)) (fun _ _ _ => levelUpTurn_next) hlen] at h
  have hnodup := hl.nodup
  clear hl hlive hlen
  induction l generalizing s with
  | nil => cases h; simp
  | cons b l ih =>
    simp only [List.foldlM_cons, levelUpTurn, Option.bind_eq_bind, Option.bind_eq_some_iff,
      Option.map_eq_some_iff] at h
    obtain ⟨s₁, ⟨r, hr, rfl⟩, h⟩ := h
    obtain ⟨hb, hnodup⟩ := List.nodup_cons.1 hnodup
    rw [ih h hnodup]
    have hbr := levelOf_eq hr
    have hfirst : (if r.level = level then
        (s.modPlayer b fun r => { r with level := r.level + 1 }).createResponseToCommand
          r.id "incantation" none (some "Level up!") else s).levelOf q =
        if q = b ∧ s.levelOf q = some level then some (level + 1) else s.levelOf q := by
      split
      · rename_i hlevel
        change ((s.modPlayer b _).playerHeap q).map Player.level = _
        rw [modPlayer_heap]
        by_cases hqb : q = b
        · simp [hqb, hbr, hr, hlevel]
        · simp only [hqb, if_false, false_and]; rfl
      · rename_i hlevel
        by_cases hqb : q = b
        · simp [hqb, hbr, hlevel]
        · simp [hqb]
    rw [hfirst]
    by_cases hqb : q = b
    · subst hqb
      simp [hb]
    · simp [hqb]

/-! ### Payments and completions -/

/-- The event completes an incantation of `p` at a level. -/
def Event.completes (p : Addr) (level : Int) (ev : Event) : Bool :=
  ev.callback = some .realIncantation ∧ ev.data = some p ∧ (ev.arg.map fun a => atoi a.text) = some level

/-- One completion, when the event is one. -/
def Event.credit (ev : Event) (p : Addr) (level : Int) : Nat := if ev.completes p level then 1 else 0

/-- The completions of incantations of `p` at a level that are queued in any buffer. -/
def Server.pending (p : Addr) (level : Int) (s : Server) : Nat :=
  ∑ c ∈ Finset.range s.nextAddr, (s.clientBuffer c).queued.countP (Event.completes p level)

/-- Every completion, be it queued, done, or `credit` for one that is under way, has been paid for. -/
structure Paid (credit : Addr → Int → Nat) (s : Server) : Prop where
  fresh : ∀ c, s.nextAddr ≤ c → s.clientHeap c = none
  due : ∀ p level, s.pending p level + s.ledger.count (.completed p level) + credit p level ≤
    s.ledger.count (.ritual p level)
  early : ∀ p level n, (s.ledger.take n).count (.completed p level) ≤ (s.ledger.take n).count (.ritual p level)

variable {credit credit' : Addr → Int → Nat}

private theorem pending_le (haddr : s.nextAddr ≤ s'.nextAddr) (hfresh : ∀ c, s.nextAddr ≤ c → s.clientHeap c = none)
    {p : Addr} {level : Int} (hbuf : ∀ c, (s'.clientBuffer c).queued.countP (Event.completes p level) ≤
      (s.clientBuffer c).queued.countP (Event.completes p level)) : s'.pending p level ≤ s.pending p level := by
  have hext : s.pending p level =
      ∑ c ∈ Finset.range s'.nextAddr, (s.clientBuffer c).queued.countP (Event.completes p level) := by
    refine Finset.sum_subset (Finset.range_subset_range.2 haddr) fun c _ hc => ?_
    rw [Server.clientBuffer, hfresh c (by simpa using hc)]
    rfl
  rw [hext]
  exact Finset.sum_le_sum fun c _ => hbuf c

theorem setClientBuffer_clientBuffer {c : Addr} {cl : Client} {b : EventBuffer} (hcl : s.clientHeap c = some cl)
    (d : Addr) : (s.setClientBuffer c b).clientBuffer d = if d = c then b else s.clientBuffer d := by
  rw [Server.clientBuffer, setClientBuffer_heap b hcl]
  by_cases hd : d = c
  · simp only [hd, if_true]
  · simp only [hd, if_false, Server.clientBuffer]

private theorem pending_setClientBuffer {c : Addr} {cl : Client} (hcl : s.clientHeap c = some cl) (hc : c < s.nextAddr)
    (b : EventBuffer) (p : Addr) (level : Int) :
    (s.setClientBuffer c b).pending p level + cl.eventBuffer.queued.countP (Event.completes p level) =
      s.pending p level + b.queued.countP (Event.completes p level) := by
  have hsum := sum_range_update hc (fun d => (s.clientBuffer d).queued.countP (Event.completes p level))
    (b.queued.countP (Event.completes p level))
  simp only [clientBuffer_eq hcl] at hsum
  rw [Server.pending, Server.pending, ← hsum]
  congr 1
  refine Finset.sum_congr (by rw [setClientBuffer_eq hcl]) fun d _ => ?_
  rw [setClientBuffer_clientBuffer hcl, Function.update_apply]
  split <;> rfl

namespace Paid

theorem mono (h : Paid credit s) (hle : ∀ p level, credit' p level ≤ credit p level) : Paid credit' s :=
  ⟨h.fresh, fun p level => Nat.le_trans (Nat.add_le_add_left (hle p level) _) (h.due p level), h.early⟩

/-- Steps that pay for nothing, complete nothing and queue no completion. -/
theorem noRitual (h : Paid credit s) (hno : NoRitual s s') (hfresh : ∀ c, s'.nextAddr ≤ c → s'.clientHeap c = none)
    (hbuf : ∀ c p level, (s'.clientBuffer c).queued.countP (Event.completes p level) ≤
      (s.clientBuffer c).queued.countP (Event.completes p level)) : Paid credit s' := by
  obtain ⟨new, hnew, hno'⟩ := hno.ledger
  have hcount : ∀ p level, new.count (.ritual p level) = 0 ∧ new.count (.completed p level) = 0 := fun p level =>
    ⟨List.count_eq_zero_of_not_mem (hno' p level).1, List.count_eq_zero_of_not_mem (hno' p level).2⟩
  refine ⟨hfresh, fun p level => ?_, fun p level n => ?_⟩
  · have := pending_le hno.addr h.fresh (hbuf · p level)
    have := h.due p level
    rw [hnew, List.count_append, List.count_append, (hcount p level).1, (hcount p level).2]
    omega
  · have hzero : ((new.take (n - s.ledger.length)).count (.completed p level)) = 0 :=
      List.count_eq_zero_of_not_mem fun hm => (hno' p level).2 (List.mem_of_mem_take hm)
    have := h.early p level n
    rw [hnew, List.take_append, List.count_append, List.count_append, hzero]
    omega

/-- Writes that leave the clients and the ledger alone. -/
theorem congr (h : Paid credit s) (haddr : s.nextAddr ≤ s'.nextAddr) (hc : s'.clientHeap = s.clientHeap)
    (hledger : s'.ledger = s.ledger) : Paid credit s' := by
  refine ⟨fun c hle => by rw [hc]; exact h.fresh c (Nat.le_trans haddr hle), fun p level => ?_, by
    rw [hledger]; exact h.early⟩
  have : s'.pending p level ≤ s.pending p level := pending_le haddr h.fresh fun c => by
    rw [Server.clientBuffer, hc]; exact Nat.le_refl _
  have := h.due p level
  rw [hledger]
  omega

/-- Writes that leave the clients alone, with one more entry in the ledger. -/
theorem record (h : Paid credit s) {e : Entry} (haddr : s.nextAddr ≤ s'.nextAddr)
    (hc : s'.clientHeap = s.clientHeap) (hledger : s'.ledger = s.ledger ++ [e]) (hle : ∀ p level,
      [e].count (.completed p level) + credit' p level ≤ [e].count (.ritual p level) + credit p level) :
    Paid credit' s' := by
  have hdue : ∀ p level, s'.pending p level + s'.ledger.count (.completed p level) + credit' p level ≤
      s'.ledger.count (.ritual p level) := by
    intro p level
    have : s'.pending p level ≤ s.pending p level := pending_le haddr h.fresh fun c => by
      rw [Server.clientBuffer, hc]; exact Nat.le_refl _
    have := h.due p level
    have := hle p level
    rw [hledger, List.count_append, List.count_append]
    omega
  refine ⟨fun c hle => by rw [hc]; exact h.fresh c (Nat.le_trans haddr hle), hdue, fun p level n => ?_⟩
  by_cases hn : n ≤ s.ledger.length
  · rw [hledger, List.take_append_of_le_length hn]
    exact h.early p level n
  · rw [List.take_of_length_le (by rw [hledger]; simp; omega)]
    have := hdue p level
    omega

/-- Another buffer for a client. -/
theorem setBuffer (h : Paid credit s) {c : Addr} {cl : Client} {b : EventBuffer} (hcl : s.clientHeap c = some cl)
    (hle : ∀ p level, b.queued.countP (Event.completes p level) + credit' p level ≤
      cl.eventBuffer.queued.countP (Event.completes p level) + credit p level) :
    Paid credit' (s.setClientBuffer c b) := by
  have hc : c < s.nextAddr := by
    by_contra hge
    rw [h.fresh c (Nat.le_of_not_lt hge)] at hcl
    cases hcl
  refine ⟨fun d hd => ?_, fun p level => ?_, h.early⟩
  · rw [setClientBuffer_heap b hcl, if_neg (fun he => ?_)]
    · exact h.fresh d hd
    · rw [he] at hd
      exact absurd (Nat.lt_of_lt_of_le hc hd) (Nat.lt_irrefl _)
  · have := pending_setClientBuffer hcl hc b p level
    have := h.due p level
    have := hle p level
    change _ + s.ledger.count _ + _ ≤ s.ledger.count _
    omega

end Paid

/-! ### The invariant along a step -/

private theorem Effect.paid (he : Effect cfg a s s') (ha : ∀ chance i, a ≠ .playSlot chance i) (hwf : BuffersWF s)
    (h : Paid credit s) : Paid credit s' := by
  have hno := he.noRitual ha
  cases he with
  | quiet _ _ _ _ _ _ haddr => exact h.congr haddr rfl rfl
  | takeRemovals => exact h.congr (Nat.le_refl _) rfl rfl
  | serverBuffer b hb => exact h.congr (Nat.le_refl _) rfl rfl
  | @enter _ conn fd teamName draw teamId t hname ht hfull =>
    have hc : (enterGame cfg s conn fd teamId draw).clientHeap =
        Function.update s.clientHeap s.nextAddr (some { socketFd := fd, player := s.nextAddr + 1, conn := conn }) := by
      rw [enterGame_eq]; exact onTile_clientHeap _ _ _ _
    have haddr : (enterGame cfg s conn fd teamId draw).nextAddr = s.nextAddr + 2 := by
      rw [enterGame_eq]; exact onTile_nextAddr _ _ _ _
    refine h.noRitual hno (fun c hle => ?_) fun c p level => ?_
    · rw [haddr] at hle
      have hlt : s.nextAddr < c := Nat.lt_of_lt_of_le (Nat.lt_add_of_pos_right (by decide)) hle
      rw [hc, Function.update_of_ne (Nat.ne_of_gt hlt)]
      exact h.fresh c (Nat.le_of_lt hlt)
    · simp only [Server.clientBuffer, hc, Function.update_apply]
      by_cases hce : c = s.nextAddr
      · simp [hce]
      · simp [hce]
  | schedule hc hcl hb =>
    obtain ⟨-, -, -, hq⟩ := schedule_spec (hwf.client _ _ hcl) hb
    refine h.setBuffer hcl fun p level => ?_
    simp [hq, scheduledEvent, Event.completes]
  | kill hc hcl hpl => exact h.record (Nat.le_refl _) rfl rfl fun p level => by simp
  | spawn n counts => exact h.record (Nat.le_refl _) rfl rfl fun p level => by simp
  | _ => exact absurd rfl (ha _ _)

theorem Paid.of_effects (he : Effects cfg a s s') (ha : ∀ chance i, a ≠ .playSlot chance i) (hwf : BuffersWF s)
    (h : Paid credit s) : Paid credit s' := by
  refine (?_ : BuffersWF s' ∧ Paid credit s').2
  induction he with
  | refl => exact ⟨hwf, h⟩
  | tail _ he ih => exact ⟨he.buffersWF ih.1, he.paid ha ih.1 ih.2⟩

theorem Paid.die (h : Paid credit s) {c : Addr} {cl : Client} {pl : Player} (hfood : pl.inv.nourriture ≤ 0) :
    Paid credit (gamePlayerDie cfg s c cl pl).2 := by
  refine h.noRitual (.die hfood) (fun d hd => ?_) fun d p level => ?_
  · have hnone := h.fresh d (Nat.le_trans (NoRitual.die hfood).addr hd)
    rcases (gamePlayerDie_deceased cfg s c cl hfood).clientHeap d with h' | h'
    · rw [h', hnone]
    · exact h'.2
  · rcases (gamePlayerDie_deceased cfg s c cl hfood).clientHeap d with h' | h'
    · rw [Server.clientBuffer, h']; exact Nat.le_refl _
    · rw [Server.clientBuffer, h'.2]; exact Nat.zero_le _

/-- The level printed by `m_command_incantation` is the one read by `m_command_real_incantation`. -/
private theorem atoi_snprintf {level : Int} (h1 : 1 ≤ level) (h7 : level ≤ levelMax) :
    atoi (snprintf 12 level) = level := by
  unfold levelMax at h7
  obtain rfl | rfl | rfl | rfl | rfl | rfl | rfl : level = 1 ∨ level = 2 ∨ level = 3 ∨ level = 4 ∨ level = 5 ∨
    level = 6 ∨ level = 7 := by omega
  all_goals decide

/-- A payment covers the completion that is queued for it. -/
theorem Paid.incantation {p : Addr} {pl : Player} {origin : Conn} (hwf : BuffersWF s) (hlevels : Levels s)
    (hpl : s.playerHeap p = some pl) (h : Paid (fun _ _ => 0) s)
    (hrun : commandIncantation cfg s p pl origin = some s') : Paid (fun _ _ => 0) s' := by
  obtain rfl | ⟨-, rfl⟩ := commandIncantation_cases hrun
  · exact h.congr (Nat.le_refl _) rfl rfl
  · have hlevel := hlevels p pl.level (levelOf_eq hpl)
    -- the payment is one credit for `p` at its level, to be spent on the event that is queued
    have hpay : Paid (fun q n => if q = p ∧ n = pl.level then 1 else 0) (payRitual s p pl) := by
      refine h.record (Nat.le_refl _) rfl rfl fun q n => ?_
      by_cases hq : q = p ∧ n = pl.level
      · simp [hq.1, hq.2]
      · simp [hq]
    have hpaid : Paid (fun _ _ => 0) (payRitual s p pl) := hpay.mono fun _ _ => Nat.zero_le _
    rcases queueCompletion_cases cfg (payRitual s p pl) p pl origin with ⟨-, h'⟩ | ⟨c, cl, -, hcl, s₂, h', h₂⟩
    · rw [h']; exact hpaid
    · rw [h']
      rcases h₂ with rfl | ⟨b, hb, rfl⟩
      · -- the buffer was full: paid for, but no completion will ever use the credit
        exact hpaid.congr (Nat.le_succ _) rfl rfl
      · obtain ⟨-, -, -, hq⟩ := scheduleFront_spec (hwf.client c cl hcl) hb
        have hdup : Paid (fun q n => if q = p ∧ n = pl.level then 1 else 0)
          ((payRitual s p pl).strdup (snprintf 12 pl.level)).2 := hpay.congr (Nat.le_succ _) rfl rfl
        refine Paid.congr (hdup.setBuffer (b := b) hcl fun q n => ?_) (Nat.le_refl _) rfl rfl
        rw [hq, List.countP_cons]
        simp only [Event.completes, Option.map_some, atoi_snprintf hlevel.1 hlevel.2, Option.some.injEq, true_and,
          Bool.decide_and, Bool.and_eq_true, decide_eq_true_eq, Nat.add_zero, @eq_comm _ p, @eq_comm _ pl.level]
        exact Nat.le_refl _

/-- A completion that succeeds uses up the credit of its event. -/
theorem Paid.completion {ev : Event} {p : Addr} {pl : Player} (hcb : ev.callback = some .realIncantation)
    (hdata : ev.data = some p) (h : Paid ev.credit s) (hrun : commandRealIncantation s p pl ev.arg = some s') :
    Paid (fun _ _ => 0) s' := by
  have hpaid : Paid (fun _ _ => 0) s := h.mono fun _ _ => Nat.zero_le _
  obtain ⟨copy, harg, rfl | ⟨hlevel, -, s₁, h₁, rfl⟩⟩ := commandRealIncantation_cases hrun
  · exact hpaid.congr (Nat.le_refl _) rfl rfl
  · have hloop : Paid ev.credit s₁ := by
      have hctl := levelUpLoop_control h₁
      exact h.congr (by rw [hctl]) (by rw [hctl]) (by rw [hctl])
    refine hloop.record (Nat.le_refl _) rfl rfl fun q n => ?_
    by_cases hq : q = p ∧ n = pl.level
    · obtain ⟨rfl, rfl⟩ := hq
      simp [Event.credit, Event.completes, hcb, hdata, harg, hlevel]
    · rw [List.count_eq_zero_of_not_mem]
      · simp
      · simp only [List.mem_singleton, Entry.completed.injEq]
        exact hq

theorem Paid.callback {ev : Event} (hwf : BuffersWF s) (hlevels : Levels s) (h : Paid ev.credit s)
    {chance : Chance} (hrun : runCallback cfg chance ev s = some s') : Paid (fun _ _ => 0) s' := by
  have hpaid : Paid (fun _ _ => 0) s := h.mono fun _ _ => Nat.zero_le _
  unfold runCallback at hrun
  split at hrun
  · cases hrun; exact hpaid
  · cases hrun
    exact .of_effects (gameSpawnResources_effects (a := .flush) _ _) (by simp) hwf hpaid
  · rename_i c _
    simp only [Option.bind_eq_some_iff] at hrun
    obtain ⟨p, -, pl, hpl, hrun⟩ := hrun
    by_cases hc : c = .incantation
    · subst hc
      exact hpaid.incantation hwf hlevels hpl hrun
    · have hctl := runCommand_control hc hrun
      exact hpaid.congr (by rw [hctl.rest]) (by rw [hctl.rest]) (by rw [hctl.rest])
  · rename_i hcb
    simp only [Option.bind_eq_some_iff] at hrun
    obtain ⟨p, hdata, pl, -, hrun⟩ := hrun
    exact h.completion hcb hdata hrun

theorem Paid.process {c : Addr} {cl : Client} {chance : Chance} (hwf : BuffersWF s) (hlevels : Levels s)
    (h : Paid (fun _ _ => 0) s) (hcl : s.clientHeap c = some cl) (hrun : processClient cfg chance c s = some s') :
    Paid (fun _ _ => 0) s' := by
  rcases processClient_cases (hwf.client c cl hcl) hcl hrun with rfl | ⟨ev, hq, hcount, -, s₂, hcall, hend⟩
  · exact h
  · have hpop : Paid ev.credit (s.setClientBuffer c cl.eventBuffer.pop) := by
      refine h.setBuffer hcl fun p level => ?_
      rw [hq, List.countP_cons, Event.credit]
      omega
    have hwf' := hwf.setClientBuffer hcl (EventBuffer.pop_wf (hwf.client c cl hcl) hcount)
    have h₂ := hpop.callback hwf' hlevels hcall
    rcases hend with rfl | ⟨addr, cl', j, hcl', -, hq', rfl⟩
    · exact h₂
    · have hclear : Paid (fun _ _ => 0) (s₂.setClientBuffer c (cl'.eventBuffer.clearArg j)) :=
        h₂.setBuffer hcl' fun p level => by rw [hq']
      exact hclear.congr (Nat.le_refl _) rfl rfl

theorem Paid.step (hwf : BuffersWF s) (hlevels : Levels s) (h : Paid (fun _ _ => 0) s)
    (hstep : gameStep cfg s a = some s') : Paid (fun _ _ => 0) s' := by
  have hother : (∀ chance i, a ≠ .playSlot chance i) → Paid (fun _ _ => 0) s' := fun ha =>
    .of_effects (gameStep_effects hwf hstep) ha hwf h
  cases a with
  | playSlot chance i =>
    cases gamePlaySlot_cases hstep with
    | empty => exact h
    | eats => exact h.record (Nat.le_refl _) rfl rfl fun p level => by simp
    | dies hat hdead hfood => exact h.die hfood
    | waits => exact h
    | plays hat halive hdue hrun => exact h.process hwf hlevels hat.client hrun
  | _ => exact hother (by simp)

/-! ### The two halves of an incantation -/

/-- What `m_command_incantation` does when the check passes. -/
structure Payment (s s' : Server) (p : Addr) (pl : Player) : Prop where
  below : pl.level < levelMax
  levels : s'.levelOf = s.levelOf
  enough : ∀ r, (levelReqs pl.level).inv.get r ≤ (s.map (s.mapIndex pl.pos)).items.get r
  items : ∀ t, (s'.map t).items =
    if t = s.mapIndex pl.pos then (s.map t).items.minus (levelReqs pl.level).inv else (s.map t).items
  ledger : s'.ledger = s.ledger ++ [.ritual p pl.level]

/-- What `m_command_real_incantation` does when its checks pass: on a tile with enough players of the level of
`p`, these players rise by one and nobody else changes. -/
structure Completion (s s' : Server) (p : Addr) (pl : Player) : Prop where
  below : pl.level < levelMax
  rise : ∃ l, IsList s.nextOf s.prevOf (s.map (s.mapIndex pl.pos)).players l ∧ p ∈ l ∧
    (levelReqs pl.level).playerNumber ≤ (l.countP fun q => s.levelOf q = some pl.level : Nat) ∧
    ∀ q, s'.levelOf q = if q ∈ l ∧ s.levelOf q = some pl.level then some (pl.level + 1) else s.levelOf q
  ledger : s'.ledger = s.ledger ++ [.completed p pl.level]

private theorem commandIncantation_payment {p : Addr} {pl : Player} {origin : Conn}
    (hrun : commandIncantation cfg s p pl origin = some s') : NoRitual s s' ∨ Payment s s' p pl := by
  obtain rfl | ⟨hret, rfl⟩ := commandIncantation_cases hrun
  · exact Or.inl (.send _ _)
  · have hlevel := gameCheckCanIncantation_success hret
    -- queueing the completion touches neither the map nor the players nor the ledger
    have hmap : (queueCompletion cfg (payRitual s p pl) p pl origin).map = (payRitual s p pl).map ∧
        (queueCompletion cfg (payRitual s p pl) p pl origin).playerHeap = s.playerHeap ∧
        (queueCompletion cfg (payRitual s p pl) p pl origin).ledger = s.ledger ++ [.ritual p pl.level] := by
      rw [queueCompletion_rest]
      exact ⟨rfl, rfl, rfl⟩
    refine Or.inr ⟨hlevel, ?_, Inventory.lacks_false (gameCheckCanIncantation_items hret), fun t => ?_, hmap.2.2⟩
    · funext q
      unfold Server.levelOf
      rw [hmap.2.1]
    · rw [hmap.1]
      simp only [payRitual, Server.record, Server.modTile, Function.update_apply]
      split
      · rename_i ht; rw [ht]
      · rfl

/-- A completion is refused, with the answer `ko`, or carried out, with the answer `ok`. -/
theorem Placed.completion (h : Placed width height s) {p : Addr} {pl : Player} (hpl : s.playerHeap p = some pl)
    {arg : Option Arg} (hrun : commandRealIncantation s p pl arg = some s') :
    (NoRitual s s' ∧ s'.ledger = s.ledger ∧
      s'.outbox.getLast? = some (pl.id, response "incantation" none (some "ko"))) ∨
    (Completion s s' p pl ∧ s'.outbox.getLast? = some (pl.id, response "incantation" none (some "ok"))) := by
  obtain ⟨copy, -, rfl | ⟨-, hret, s₁, h₁, rfl⟩⟩ := commandRealIncantation_cases hrun
  · exact Or.inl ⟨(NoRitual.send _ _), rfl, by simp [Server.createResponseToCommand, Server.send]⟩
  · obtain ⟨l, hl, hp, hlive, hlen⟩ := h.own_list hpl
    have hctl := levelUpLoop_control h₁
    refine Or.inr ⟨⟨gameCheckCanIncantation_success hret, ⟨l, hl, hp,
      gameCheckCanIncantation_count hl hlive hlen hret,
      show ∀ q, s₁.levelOf q = _ from levelUpLoop_levels hl hlive hlen h₁⟩, ?_⟩,
      by simp [Server.createResponseToCommand, Server.send]⟩
    change s₁.ledger ++ _ = _
    rw [hctl]

/-- The next event of the slot that `a` plays is `ev`, on behalf of the player `pl` at `p`. -/
structure Serves (s : Server) (a : GameAction) (ev : Event) (p : Addr) (pl : Player) : Prop where
  slot : ∃ chance i c cl, a = .playSlot chance i ∧ s.clients[i]? = some (some c) ∧ s.clientHeap c = some cl ∧
    cl.eventBuffer.queued.head? = some ev
  due : ev.execTime ≤ s.now
  data : ev.data = some p
  player : s.playerHeap p = some pl

/-- A step of the game keeps all levels and concludes no half of an incantation, or it is one of the halves. -/
inductive RitualStep (s s' : Server) (a : GameAction) : Prop
  | none (h : NoRitual s s')
  | payment {ev : Event} {p : Addr} {pl : Player} (hev : Serves s a ev p pl)
      (hcb : ev.callback = some (.command .incantation)) (h : Payment s s' p pl)
  | completion {ev : Event} {p : Addr} {pl : Player} (hev : Serves s a ev p pl)
      (hcb : ev.callback = some .realIncantation) (h : Completion s s' p pl)

theorem Placed.callback (h : Placed width height s) {chance : Chance} {ev : Event}
    (hrun : runCallback cfg chance ev s = some s') :
    NoRitual s s' ∨ ∃ p pl, ev.data = some p ∧ s.playerHeap p = some pl ∧
      (ev.callback = some (.command .incantation) ∧ Payment s s' p pl ∨
        ev.callback = some .realIncantation ∧ Completion s s' p pl) := by
  unfold runCallback at hrun
  split at hrun
  · cases hrun; exact Or.inl (.refl s)
  · cases hrun
    have heff : Effects cfg .flush s (gameSpawnResources cfg chance.counts s ev) := gameSpawnResources_effects _ _
    exact Or.inl (.of_effects heff (by simp))
  · rename_i c hcb
    simp only [Option.bind_eq_some_iff] at hrun
    obtain ⟨p, hdata, pl, hpl, hrun⟩ := hrun
    by_cases hc : c = .incantation
    · subst hc
      rcases commandIncantation_payment hrun with hno | hpay
      · exact Or.inl hno
      · exact Or.inr ⟨p, pl, hdata, hpl, Or.inl ⟨hcb, hpay⟩⟩
    · exact Or.inl (runCommand_control hc hrun).noRitual
  · rename_i hcb
    simp only [Option.bind_eq_some_iff] at hrun
    obtain ⟨p, hdata, pl, hpl, hrun⟩ := hrun
    rcases h.completion hpl hrun with ⟨hno, -⟩ | ⟨hdone, -⟩
    · exact Or.inl hno
    · exact Or.inr ⟨p, pl, hdata, hpl, Or.inr ⟨hcb, hdone⟩⟩

theorem Placed.process (h : Placed width height s) (hwf : BuffersWF s) {chance : Chance} {i : Nat} {c : Addr}
    {cl : Client} (hi : s.clients[i]? = some (some c)) (hcl : s.clientHeap c = some cl)
    (hrun : processClient cfg chance c s = some s') : RitualStep s s' (.playSlot chance i) := by
  rcases processClient_cases (hwf.client c cl hcl) hcl hrun with rfl | ⟨ev, hq, -, hdue, s₂, hcall, hend⟩
  · exact .none (.refl _)
  · -- the buffers of clients do not show in what the cases say
    have hpop : Placed width height (s.setClientBuffer c cl.eventBuffer.pop) :=
      h.congr rfl rfl rfl rfl (Nat.le_refl _)
    have hs' : s'.nextAddr = s₂.nextAddr ∧ s'.levelOf = s₂.levelOf ∧ s'.map = s₂.map ∧ s'.ledger = s₂.ledger := by
      rcases hend with rfl | ⟨addr, cl', j, -, -, -, rfl⟩ <;> exact ⟨rfl, rfl, rfl, rfl⟩
    obtain ⟨haddr, hlevel, hmap, hledger⟩ := hs'
    have hserves : ∀ p pl, ev.data = some p → s.playerHeap p = some pl →
        Serves s (.playSlot chance i) ev p pl := fun p pl hdata hpl =>
      ⟨⟨chance, i, c, cl, rfl, hi, hcl, by rw [hq]; rfl⟩, hdue, hdata, hpl⟩
    rcases hpop.callback hcall with hno | ⟨p, pl, hdata, hpl, ⟨hcb, hpay⟩ | ⟨hcb, hdone⟩⟩
    · refine .none ⟨⟨by rw [haddr]; exact hno.addr, by rw [hlevel]; exact hno.level⟩, ?_⟩
      rw [hledger]
      exact hno.ledger
    · refine .payment (hserves p pl hdata hpl) hcb ⟨hpay.below, by rw [hlevel]; exact hpay.levels, hpay.enough, ?_, ?_⟩
      · rw [hmap]; exact hpay.items
      · rw [hledger]; exact hpay.ledger
    · refine .completion (hserves p pl hdata hpl) hcb ⟨hdone.below, ?_, ?_⟩
      · rw [hlevel]; exact hdone.rise
      · rw [hledger]; exact hdone.ledger

private theorem Placed.ritualStep (h : Placed width height s) (hwf : BuffersWF s) (hstep : gameStep cfg s a = some s') :
    RitualStep s s' a := by
  have hother : (∀ chance i, a ≠ .playSlot chance i) → RitualStep s s' a := fun ha =>
    .none (.of_effects (gameStep_effects hwf hstep) ha)
  cases a with
  | playSlot chance i =>
    cases gamePlaySlot_cases hstep with
    | empty => exact .none (.refl s)
    | eats => exact .none (.eat _)
    | dies hat hdead hfood => exact .none (.die hfood)
    | waits => exact .none (.refl s)
    | plays hat halive hdue hrun => exact h.process hwf hat.slot hat.client hrun
  | _ => exact hother (by simp)

/-! ### Runs -/

/-- What the rules of elevation promise in a state `s`. -/
structure ElevationOK (cfg : Config) (s : Server) : Prop where
  /-- Levels lie between 1 and 7, and a level that `level_reqs` is read at is an index of the table. -/
  levels : ∀ p pl, s.playerHeap p = some pl → 1 ≤ pl.level ∧ pl.level ≤ 7 ∧
    (pl.level < levelMax → pl.level.toNat < levelReqsTable.length)
  /-- No level ever falls. -/
  rising : ∀ as s', run (gameStep cfg) s as = some s' → ∀ p pl pl', s.playerHeap p = some pl →
    s'.playerHeap p = some pl' → pl.level ≤ pl'.level
  /-- Levels and payments change in the two halves of an incantation only. -/
  step : ∀ a s', gameStep cfg s a = some s' → RitualStep s s' a
  /-- The answer `ok` is given when the incantation is carried out, and only then. -/
  answer : ∀ c b p pl, s.playerHeap p = some pl → ∀ arg s',
    commandRealIncantation (s.setClientBuffer c b) p pl arg = some s' →
    (s'.ledger = s.ledger ∧ s'.outbox.getLast? = some (pl.id, response "incantation" none (some "ko"))) ∨
    (s'.ledger = s.ledger ++ [.completed p pl.level] ∧
      s'.outbox.getLast? = some (pl.id, response "incantation" none (some "ok")))
  /-- Each completion has an earlier payment by the same player at the same level, and no other completion has
  the same one. -/
  paid : ∃ payment : Nat → Nat, ∀ i p level, s.ledger[i]? = some (.completed p level) →
    payment i < i ∧ s.ledger[payment i]? = some (.ritual p level) ∧
    ∀ j q level', s.ledger[j]? = some (.completed q level') → payment j = payment i → j = i

private theorem Paid.matching (h : Paid credit s) : ∃ payment : Nat → Nat, ∀ i p level,
    s.ledger[i]? = some (.completed p level) → payment i < i ∧ s.ledger[payment i]? = some (.ritual p level) ∧
    ∀ j q level', s.ledger[j]? = some (.completed q level') → payment j = payment i → j = i := by
  obtain ⟨m, hm⟩ := Matching.exists_matching (fun k : Addr × Int => Entry.completed k.1 k.2)
    (fun k => .ritual k.1 k.2) (fun k k' h => by simpa [Prod.ext_iff] using h)
    (fun k k' h => by simpa [Prod.ext_iff] using h) (fun _ _ => by simp) fun k n => h.early k.1 k.2 n
  refine ⟨m, fun i p level hi => ?_⟩
  obtain ⟨hlt, hpay, hinj⟩ := hm i (p, level) hi
  exact ⟨hlt, hpay, fun j q level' hj => hinj j (q, level') hj⟩

theorem levels_init (teams : List String) (nbClients : Nat) (counts : Nat → InventoryType → Nat) :
    Levels (gameInit cfg width height teams nbClients counts) := fun _ _ h => (by cases h)

private theorem paid_init (teams : List String) (nbClients : Nat) (counts : Nat → InventoryType → Nat) :
    Paid (fun _ _ => 0) (gameInit cfg width height teams nbClients counts) :=
  ⟨fun _ _ => rfl, fun _ _ => by simp [Server.pending, gameInit], fun _ _ _ => by simp [gameInit]⟩

/-- In every state a run of the game reaches, levels obey the rules of elevation. -/
theorem levels_paid_for (cfg : Config) {width height : Nat} (hw : 0 < width) (hh : 0 < height)
    (teams : List String) (nbClients : Nat) (counts : Nat → InventoryType → Nat) (as : List GameAction) {s : Server}
    (h : run (gameStep cfg) (gameInit cfg width height teams nbClients counts) as = some s) : ElevationOK cfg s := by
  obtain ⟨⟨hwf, hp, hlevels⟩, hpaid⟩ : (BuffersWF s ∧ Placed width height s ∧ Levels s) ∧ Paid (fun _ _ => 0) s := by
    refine Guarded.invariant (G := fun _ _ => True)
      (I := fun s => (BuffersWF s ∧ Placed width height s ∧ Levels s) ∧ Paid (fun _ _ => 0) s)
      (fun s a s' hstep _ hI => ⟨?_, hI.2.step hI.1.1 hI.1.2.2 hstep⟩) (AllSteps.of_forall fun _ _ _ _ => trivial) h
      ⟨⟨buffersWF_init _ _ _, placed_init _ _ _ _ _, levels_init _ _ _⟩, paid_init _ _ _⟩
    exact gameStep_invariant (I := fun s => Placed width height s ∧ Levels s)
      (fun _ _ _ he _ hI => ⟨he.placed hw hh hI.1, he.levels hI.2⟩) hI.1.1 hI.1.2 hstep
  refine ⟨fun p pl hpl => ?_, fun as s' hrun p pl pl' hpl hpl' => ?_, fun a s' hstep => hp.ritualStep hwf hstep,
    fun c b p pl hpl arg s' hrun => ?_, hpaid.matching⟩
  · obtain ⟨h1, h7⟩ := hlevels p pl.level (levelOf_eq hpl)
    refine ⟨h1, h7, fun hlt => ?_⟩
    simp only [levelMax, levelReqsTable, List.length_cons, List.length_nil] at hlt ⊢
    omega
  · exact level_le_of_run hwf hp.fresh hrun (levelOf_eq hpl) (levelOf_eq hpl')
  · have hset : Placed width height (s.setClientBuffer c b) := hp.congr rfl rfl rfl rfl (Nat.le_refl _)
    rcases hset.completion hpl hrun with ⟨-, hledger, hout⟩ | ⟨hdone, hout⟩
    · exact Or.inl ⟨hledger, hout⟩
    · exact Or.inr ⟨hdone.ledger, hout⟩

/-- Two players on one tile, the first of which pays for an incantation and completes it. -/
def elevation : List GameAction :=
  [.register 0 4 "red" ⟨0, 0, 0⟩, .register 1 5 "red" ⟨0, 0, 0⟩, .execute 0 4 "incantation" none, .playSlot {} 0,
    .tick 300, .playSlot {} 0]

theorem levels_paid_for_elevation :
    ∃ s, run (gameStep shippedConfig) (gameInit shippedConfig 1 1 ["red"] 2 fun _ _ => 2) elevation = some s ∧
      s.ledger = [.ritual 1 1, .completed 1 1] ∧ s.levelOf 3 = some 2 ∧ ElevationOK shippedConfig s := by
  have hrun : (run (gameStep shippedConfig) (gameInit shippedConfig 1 1 ["red"] 2 fun _ _ => 2) elevation).map
      (fun s => (s.ledger, s.levelOf 3)) = some ([.ritual 1 1, .completed 1 1], some 2) := by decide
  obtain ⟨s, hs, he⟩ := Option.map_eq_some_iff.1 hrun
  obtain ⟨hledger, hlevel⟩ := Prod.mk.inj he
  exact ⟨s, hs, hledger, hlevel, levels_paid_for shippedConfig (by decide) (by decide) _ _ _ _ hs⟩

end Zappy

import Zappy.Stones

/-!
# The client's inventory mirrors the server's (`Player.java`)

Each answer to `prend`, `pose` and `inventaire` does to the inventory of the client what the command has done to the
stones of the player.  The client therefore holds the stones of its player when it has processed all answers, as long
as the answers that reach its connection are those of its own player.
-/

namespace Zappy

open LinkedList Run Stateful

variable {cfg : Config} {K : Conn} {m m' : Machine} {act : MachineAction} {width height : Nat} {msg : Json}
  {c : JavaClient} {news : List News}

/-! ### The inventory of the client -/

/-- The resource of the client with the name of an object of the server. -/
def InventoryType.resource : InventoryType → Resource
  | .nourriture => .nourriture
  | .linemate => .linemate
  | .deraumere => .deraumere
  | .sibur => .sibur
  | .mendiane => .mendiane
  | .phiras => .phiras
  | .thystame => .thystame

private theorem resource_injective : Function.Injective InventoryType.resource := by
  intro r r' h
  cases r <;> cases r' <;> first | rfl | cases h

theorem fromString_resource {item : String} {r : InventoryType} (h : inventoryTypeOf item = some r) :
    Resource.fromString item = some r.resource := by
  have hnames : ∀ entry ∈ inventoryNames, Resource.fromString entry.2 = some entry.1.resource := by decide
  obtain ⟨entry, hentry, rfl⟩ := Option.map_eq_some_iff.1 h
  have hname := List.find?_some hentry
  rw [← eq_of_beq hname]
  exact hnames entry (List.mem_of_find?_eq_some hentry)

/-- `getInventoryCount`. -/
def JavaClient.getInventoryCount (c : JavaClient) (item : Resource) : Int := (c.inventory item).getD 0

/-- The counts of the objects of the server. -/
def Known.counts (k : Known) (r : InventoryType) : Int := (k.inventory r.resource).getD 0

/-- One count changes. -/
private theorem counts_update (k : Known) (r : InventoryType) (v : Option Int) :
    Known.counts { k with inventory := Function.update k.inventory r.resource v } =
      Function.update k.counts r (v.getD 0) := by
  funext r'
  simp only [Known.counts, Function.update_apply, resource_injective.eq_iff]
  split <;> rfl

private theorem handlePrendResponse_counts {item : String} {r : InventoryType} (h : inventoryTypeOf item = some r) :
    (finalState (handlePrendResponse (response "prend" (some item) (some "ok"))) c).known.counts =
      News.apply c.known.counts (.took r) := by
  have hstatus : (response "prend" (some item) (some "ok")).getOr "status" "ko" = pure "ok" := getOr_eq rfl
  have hitem : (response "prend" (some item) (some "ok")).getOr "arg" "null" = pure item := getOr_eq rfl
  have hrest : ∀ t, Keeps (fun c => c.known.counts = t) (do
      if r.resource = .nourriture then
        addLife 126
        modify fun c => { c with nour := c.nour + 1 }) := by
    intro t
    refine .ite (fun _ => ?_) fun _ => .pure _
    exact .bind ((addLife_known 126).keeps_known (I := fun k => k.counts = t)) fun _ => .modify fun _ h => h
  unfold handlePrendResponse
  simp only [hstatus, hitem, fromString_resource h, pure_bind, if_true, orThrow, finalState_modify_bind]
  refine hrest _ _ ?_
  rw [News.apply]
  refine (counts_update c.known r _).trans ?_
  congr 1
  change _ = (c.inventory r.resource).getD 0 + 1
  cases c.inventory r.resource <;> rfl

private theorem handlePoseResponse_counts {item : String} {r : InventoryType} (h : inventoryTypeOf item = some r) :
    (finalState (handlePoseResponse (response "pose" (some item) (some "ok"))) c).known.counts =
      News.apply c.known.counts (.dropped r) := by
  have hstatus : (response "pose" (some item) (some "ok")).getOr "status" "ko" = pure "ok" := getOr_eq rfl
  have hitem : (response "pose" (some item) (some "ok")).getOr "arg" "null" = pure item := getOr_eq rfl
  unfold handlePoseResponse
  simp only [hstatus, hitem, fromString_resource h, pure_bind, if_true, orThrow]
  rw [News.apply]
  refine (counts_update c.known r _).trans ?_
  congr 1
  change _ = if (c.inventory r.resource).getD 0 > 1 then (c.inventory r.resource).getD 0 - 1 else 0
  cases c.inventory r.resource with
  | none => rfl
  | some v =>
    change (if v > 1 then some (v - 1) else none).getD 0 = if v > 1 then v - 1 else 0
    split <;> rfl

/-- A snapshot replaces all counts. -/
private theorem handleInventaireResponse_counts (inv : Inventory)
    (hmsg : msg.lookup "inventaire" = some (.numbers inv.fields)) (hworld : c.world.isSome) :
    (finalState (handleInventaireResponse msg) c).known.counts = inv.get := by
  obtain ⟨w, hw⟩ := Option.isSome_iff_exists.1 hworld
  unfold handleInventaireResponse
  rw [hmsg]
  have hnames : ∀ entry ∈ inventoryNames, Resource.fromString entry.2 = some entry.1.resource := by decide
  simp only [inventoryNames, List.forall_mem_cons, List.not_mem_nil, false_imp_iff, implies_true, and_true] at hnames
  obtain ⟨h₀, h₁, h₂, h₃, h₄, h₅, h₆⟩ := hnames
  funext r
  simp only [Inventory.fields, List.forM, h₀, h₁, h₂, h₃, h₄, h₅, h₆, orThrow, pure_bind, bind_assoc,
    finalState_modify_bind, finalState_get_bind, hw]
  cases r <;> rfl

/-- What the client does with a message that reports `n`. -/
private theorem handleResponse_counts (advice : Advice) {n : News} (h : Reports msg n)
    (hgreets : Greets width height msg) (hworld : msg.answered = some "inventaire" → c.world.isSome) :
    (finalState (handleResponse advice msg) c).known.counts = n.apply c.known.counts := by
  cases h with
  | @took item r h =>
    refine handleResponse_answer (I := fun k => k.counts = News.apply c.known.counts (.took r)) rfl rfl (by decide) ?_
    simp only [handleAnswer]
    exact handlePrendResponse_counts (c := { c with pendingResponses := c.pendingResponses - 1 }) h
  | @dropped item r h =>
    refine handleResponse_answer (I := fun k => k.counts = News.apply c.known.counts (.dropped r)) rfl rfl
      (by decide) ?_
    simp only [handleAnswer]
    exact handlePoseResponse_counts (c := { c with pendingResponses := c.pendingResponses - 1 }) h
  | counted inv =>
    refine handleResponse_answer (I := fun k => k.counts = News.apply c.known.counts (.counted inv)) rfl rfl
      (by decide) ?_
    simp only [handleAnswer]
    exact handleInventaireResponse_counts (c := { c with pendingResponses := c.pendingResponses - 1 }) inv rfl
      (hworld rfl)
  | @refused cmd item h =>
    have hstatus : (response cmd (some item) (some "ko")).getOr "status" "ko" = pure "ko" := getOr_eq rfl
    have hitem : (response cmd (some item) (some "ko")).getOr "arg" "null" = pure item := getOr_eq rfl
    rcases h with rfl | rfl
    · refine handleResponse_answer (I := fun k => k.counts = c.known.counts) rfl rfl (by decide) ?_
      simp only [handleAnswer, handlePrendResponse, hstatus, hitem, pure_bind]
      rfl
    · refine handleResponse_answer (I := fun k => k.counts = c.known.counts) rfl rfl (by decide) ?_
      simp only [handleAnswer, handlePoseResponse, hstatus, hitem, pure_bind]
      rfl
  | other h =>
    by_cases hwelcome : msg.textOr "type" "response" = some "welcome"
    · obtain ⟨s, n, -, -, rfl⟩ := hgreets hwelcome
      exact handleResponse_welcomed (I := fun k => k.counts = c.known.counts) s n rfl
    · have hkeep : Leaves (fun c => c.known.counts) (handleResponse advice msg) := by
        refine handleResponse_leaves hwelcome fun cmd hcmd => handleAnswer_leaves (fun _ _ _ => rfl)
          (fun _ _ _ => rfl) ?_
        rintro (rfl | rfl | rfl)
        · exact absurd hcmd h.2.2
        · exact absurd hcmd h.1
        · exact absurd hcmd h.2.1
      exact hkeep.eq c

/-! ### The server -/

/-- Counts that agree before a step agree after it with stones that it has left alone. -/
private theorem Agree.of_stones {s s' : Server} {q : Addr} {t : InventoryType → Int} {pl' : Player}
    (h : ∀ pl, s.playerHeap q = some pl → Agree t pl.inv) (hstones : s'.stonesOf q = s.stonesOf q)
    (hpl' : s'.playerHeap q = some pl') : Agree t pl'.inv := by
  rw [stonesOf_eq hpl'] at hstones
  obtain ⟨pl, hpl, hinv⟩ := Option.map_eq_some_iff.1 hstones.symm
  exact agree_iff.2 (hinv ▸ agree_iff.1 (h pl hpl))

/-- The welcome, or some other message that is no snapshot of an inventory. -/
def NoSnapshot (msg : Json) : Prop := (∃ width height, Greets width height msg) ∧ msg.answered ≠ some "inventaire"

/-- Buffers and tables are in order, and nothing is left to deliver. -/
structure InOrder (m : Machine) : Prop where
  wf : BuffersWF m.server
  reg : Registered m.server
  loggedIn : LoggedIn m.server
  outbox : m.server.outbox = []

theorem InOrder.step (h : InOrder m) (hstep : machineStep cfg m act = some m') : InOrder m' := by
  have hrun := machineStep_server hstep
  refine ⟨hrun.buffersWF h.wf, hrun.registered h.wf h.reg, ?_, machineStep_outbox h.outbox hstep⟩
  exact (hrun.invariant (I := fun s => BuffersWF s ∧ LoggedIn s) (fun _ _ _ hgame _ hI =>
    gameStep_invariant (I := LoggedIn) (fun _ _ _ he _ h => he.loggedIn h) hI.1 hI.2 hgame) ⟨h.wf, h.loggedIn⟩).2

/-- The news about stones that `K` was sent agree with what the player of `K` carries. -/
structure Mirrored (K : Conn) (m : Machine) (logins : Nat) (news : List News) : Prop where
  order : InOrder m
  reports : List.Forall₂ Reports (m.wireTo K) news
  wire : AfterWelcome NoSnapshot (fun msg => ∃ width height, Greets width height msg) (m.wireTo K)
  /-- Nobody else plays for `K`. -/
  one : ∀ q q', PlaysFor m.server K q → PlaysFor m.server K q' → q = q'
  agree : ∀ q pl, PlaysFor m.server K q → m.server.playerHeap q = some pl → Agree (tally news) pl.inv
  logins : K ∈ m.server.logins → 0 < logins ∧ Welcomed (m.wireTo K)
  silent : K ∉ m.server.logins → tally news = fun _ => 0

theorem Mirrored.mono {logins logins' : Nat} (h : Mirrored K m logins news) (hle : logins ≤ logins') :
    Mirrored K m logins' news :=
  { h with logins := fun hK => ⟨Nat.lt_of_lt_of_le (h.logins hK).1 hle, (h.logins hK).2⟩ }

theorem Mirrored.plays {logins : Nat} (h : Mirrored K m logins news) {q : Addr} (hq : PlaysFor m.server K q) :
    K ∈ m.server.logins ∧ (m.server.playerHeap q).isSome := by
  obtain ⟨c, cl, hc, rfl, rfl⟩ := hq
  obtain ⟨cl', pl, hcl', hpl, -⟩ := h.order.reg.client_heap hc.live
  obtain rfl := Option.some.inj (hc.heap.symm.trans hcl')
  exact ⟨h.order.loggedIn c cl hc, by rw [hpl]; rfl⟩

/-- A step that lets nobody in, and writes `new` to `K`. -/
theorem Mirrored.extend {logins : Nat} {new : List Json} {more : List News} (h : Mirrored K m logins news)
    (hstep : machineStep cfg m act = some m') (hsame : SameClients m.server m'.server)
    (hwire : m'.wireTo K = m.wireTo K ++ new) (hreports : List.Forall₂ Reports new more)
    (hnew : ∀ msg ∈ new, NoSnapshot msg ∨ (∃ width height, Greets width height msg) ∧ Welcomed (m.wireTo K))
    (hagree : ∀ q pl', PlaysFor m.server K q → m'.server.playerHeap q = some pl' →
      Agree (tally (news ++ more)) pl'.inv)
    (hsilent : K ∉ m.server.logins → tally (news ++ more) = tally news) :
    Mirrored K m' logins (news ++ more) := by
  constructor
  case order => exact h.order.step hstep
  case reports =>
    rw [hwire]
    exact List.rel_append h.reports hreports
  case wire =>
    rw [hwire]
    exact h.wire.append hnew
  case one => exact fun q q' hq hq' => h.one q q' (hsame.playsFor hq) (hsame.playsFor hq')
  case agree => exact fun q pl' hq hpl' => hagree q pl' (hsame.playsFor hq) hpl'
  case logins =>
    rw [hsame.logins]
    intro hK
    obtain ⟨hlogins, msg, hmsg, hkind⟩ := h.logins hK
    rw [hwire]
    exact ⟨hlogins, msg, List.mem_append_left _ hmsg, hkind⟩
  case silent =>
    rw [hsame.logins]
    exact fun hK => (hsilent hK).trans (h.silent hK)

/-- What a step leaves alone agrees as before. -/
theorem Mirrored.still {logins : Nat} (h : Mirrored K m logins news) (hstep : machineStep cfg m act = some m')
    {q : Addr} (hq : PlaysFor m.server K q) {pl' : Player} (hpl' : m'.server.playerHeap q = some pl')
    (hnot : ∀ type, m.calls act = some (type, q) → type.reports = false) : Agree (tally news) pl'.inv := by
  refine Agree.of_stones (h.agree q · hq) ?_ hpl'
  refine machineStep_stones h.order.wf h.order.reg hstep (h.plays hq).2 (by rw [hpl']; rfl) fun type hcalls => ⟨?_, ?_⟩
  · rintro rfl
    cases hnot _ hcalls
  · rintro rfl
    cases hnot _ hcalls

/-- An answer that reports stones goes to `K` if and only if its player plays for `K`. -/
def AnswersOwn (K : Conn) (m : Machine) (act : MachineAction) : Prop :=
  ∀ type p pl, m.calls act = some (type, p) → type.reports = true → m.server.playerHeap p = some pl →
    (m.session pl.id = some K ↔ PlaysFor m.server K p)

/-- A step that takes, puts down or counts stones. -/
private theorem Mirrored.called {logins : Nat} {type : CommandType} {p : Addr} (h : Mirrored K m logins news)
    (hown : AnswersOwn K m act) (hcalls : m.calls act = some (type, p)) (htype : type.reports = true)
    (hstep : machineStep cfg m act = some m') : ∃ more, Mirrored K m' logins (news ++ more) := by
  obtain ⟨hsame, pl, c, b, ev, fuel, s₂, hpl, hrun, hheap, hwire⟩ := machineStep_called (K := K) h.order.wf hstep hcalls
  have hempty : (m.server.setClientBuffer c b).outbox = [] := h.order.outbox
  obtain ⟨msg, n, pl', hout, hresponse, hreports, hpl', hagree⟩ := runCommand_reports htype hempty hpl hrun
  have hsession := hown type p pl hcalls htype hpl
  rw [hout] at hwire
  by_cases hp : PlaysFor m.server K p
  · -- the answer goes to `K`, whose only player is `p`
    have hnew : toConn m.session K [(pl.id, msg)] = [msg] := by simp [toConn, hsession.2 hp]
    rw [hnew] at hwire
    have hwelcomed := (h.logins (h.plays hp).1).2
    refine ⟨[n], h.extend hstep hsame hwire (.cons hreports .nil) ?_ ?_ fun hK => absurd (h.plays hp).1 hK⟩
    · intro msg' hmsg'
      rw [List.mem_singleton.1 hmsg']
      exact Or.inr ⟨⟨0, 0, .of_response hresponse⟩, hwelcomed⟩
    · intro q r hq hr
      obtain rfl := h.one q p hq hp
      obtain rfl : r = pl' := Option.some.inj (hr.symm.trans ((congrFun hheap q).trans hpl'))
      rw [tally_append]
      exact hagree _ (h.agree q pl hp hpl)
  · -- the answer goes elsewhere, and the player of `K` is another one
    have hnew : toConn m.session K [(pl.id, msg)] = [] := by simp [toConn, mt hsession.1 hp]
    rw [hnew] at hwire
    refine ⟨[], h.extend hstep hsame hwire .nil (by simp) (fun q r hq hr => ?_) fun _ => by rw [List.append_nil]⟩
    rw [List.append_nil]
    refine h.still hstep hq hr fun type' hcalls' => ?_
    obtain ⟨-, rfl⟩ := Prod.mk.inj (Option.some.inj (hcalls.symm.trans hcalls'))
    exact absurd hq hp

/-- What is written by a step that reports no stones. -/
private theorem machineStep_unreported (h : InOrder m) (hstep : machineStep cfg m act = some m')
    (hnot : ∀ type p, m.calls act = some (type, p) → type.reports = false) :
    ∃ new, m'.wireTo K = m.wireTo K ++ new ∧ ∀ msg ∈ new, Reports msg .nothing ∧ NoSnapshot msg := by
  cases machineStep_writes h.wf h.outbox K hstep with
  | idle new hwire hidle =>
    refine ⟨new, hwire, fun msg hmsg => ⟨.of_idle (hidle msg hmsg), ⟨_, _, (hidle msg hmsg).greets⟩, ?_⟩⟩
    exact (hidle msg hmsg).answered (by decide)
  | @answer type p pl c b ev fuel s₂ hcalls hinforms hpl hrun hheap hwire =>
    refine ⟨_, hwire, fun msg hmsg => ?_⟩
    have hempty : (m.server.setClientBuffer c b).outbox = [] := h.outbox
    obtain ⟨answer, hout, htype, hcmd, -⟩ := runCommand_answer hinforms hempty hrun
    obtain ⟨e, he, -, rfl⟩ := mem_toConn hmsg
    rw [hout, List.mem_singleton] at he
    subst he
    -- of the commands that inform, `voir` alone reports no stones
    have hvoir : ∀ type : CommandType, type.informs = true → type.reports = false → type = .voir := by
      intro type
      cases type <;> decide
    have hanswered : answer.answered = some "voir" := by
      rw [answered_eq htype hcmd, hvoir type hinforms (hnot type p hcalls)]
      rfl
    have hother : Reports answer .nothing := .other (by rw [hanswered]; decide)
    exact ⟨hother, ⟨0, 0, .of_response htype⟩, by rw [hanswered]; decide⟩

private theorem tally_nothing (news : List News) (new : List Json) :
    tally (news ++ new.map fun _ => .nothing) = tally news := by
  rw [tally_append]
  induction new with
  | nil => rfl
  | cons msg new ih => exact ih

private theorem reports_nothing {new : List Json} (h : ∀ msg ∈ new, Reports msg .nothing) :
    List.Forall₂ Reports new (new.map fun _ => .nothing) := by
  rw [List.forall₂_map_right_iff, List.forall₂_same]
  exact h

/-- A step that reports no stones, and lets in a player. -/
theorem Mirrored.join {logins logins' : Nat} {k : Conn} {new : List Json} (h : Mirrored K m logins news)
    (hstep : machineStep cfg m act = some m') (hjoin : Newcomer k m.server m'.server)
    (hwire : m'.wireTo K = m.wireTo K ++ new) (hnew : ∀ msg ∈ new, Reports msg .nothing ∧ NoSnapshot msg)
    (hcalls : ∀ type p, m.calls act = some (type, p) → type.reports = false) (hlogins : logins ≤ logins')
    (hfirst : k = K → K ∉ m.server.logins ∧ 0 < logins' ∧ Welcomed (m'.wireTo K)) :
    Mirrored K m' logins' (news ++ new.map fun _ => .nothing) := by
  -- the newcomer is the first player of its connection
  have hnobody : ∀ q, k = K → ¬ PlaysFor m.server K q := fun q hk hq => (hfirst hk).1 (h.plays hq).1
  constructor
  case order => exact h.order.step hstep
  case reports =>
    rw [hwire]
    exact List.rel_append h.reports (reports_nothing fun msg hmsg => (hnew msg hmsg).1)
  case wire =>
    rw [hwire]
    exact h.wire.append fun msg hmsg => Or.inl (hnew msg hmsg).2
  case one =>
    intro q q' hq hq'
    rcases hjoin.playsFor hq with hq | ⟨hk, rfl⟩
    · rcases hjoin.playsFor hq' with hq' | ⟨hk, -⟩
      · exact h.one q q' hq hq'
      · exact absurd hq (hnobody q hk)
    · rcases hjoin.playsFor hq' with hq' | ⟨-, rfl⟩
      · exact absurd hq' (hnobody q' hk)
      · rfl
  case agree =>
    intro q pl' hq hpl'
    rw [tally_nothing]
    rcases hjoin.playsFor hq with hq | ⟨hk, rfl⟩
    · exact h.still hstep hq hpl' fun type => hcalls type q
    · have hstones := hjoin.stones
      rw [stonesOf_eq hpl', Option.some.injEq] at hstones
      rw [h.silent (hfirst hk).1, agree_iff, hstones]
      exact fun r _ => (Inventory.get_zero r).symm
  case logins =>
    rw [hjoin.logins]
    intro hK
    by_cases hk : k = K
    · exact (hfirst hk).2
    · obtain ⟨hpos, msg, hmsg, hkind⟩ := h.logins (by simpa [Ne.symm hk] using hK)
      rw [hwire]
      exact ⟨by omega, msg, List.mem_append_left _ hmsg, hkind⟩
  case silent =>
    rw [hjoin.logins, tally_nothing]
    exact fun hK => h.silent fun hin => hK (List.mem_append_left _ hin)

/-- A step in which the connection logs in for the first time, or not at all. -/
theorem Mirrored.step {logins : Nat} (h : Mirrored K m logins news) (hown : AnswersOwn K m act)
    (hone : logins + loginsIn (m.hears K act) ≤ 1) (hstep : machineStep cfg m act = some m') :
    ∃ more, Mirrored K m' (logins + loginsIn (m.hears K act)) (news ++ more) := by
  have hmono : logins ≤ logins + loginsIn (m.hears K act) := Nat.le_add_right _ _
  by_cases hreports : ∃ type p, m.calls act = some (type, p) ∧ type.reports = true
  · obtain ⟨type, p, hcalls, htype⟩ := hreports
    obtain ⟨more, hmore⟩ := h.called hown hcalls htype hstep
    exact ⟨more, hmore.mono hmono⟩
  · have hnot : ∀ type p, m.calls act = some (type, p) → type.reports = false := by
      intro type p hcalls
      by_contra htype
      exact hreports ⟨type, p, hcalls, by simpa using htype⟩
    obtain ⟨new, hwire, hnew⟩ := machineStep_unreported (K := K) h.order hstep hnot
    refine ⟨new.map fun _ => .nothing, ?_⟩
    rcases machineStep_joins (K := K) h.order.wf hstep with hsame | ⟨k, hjoin, hk⟩
    · have hall : List.Forall₂ Reports new (new.map fun _ => .nothing) :=
        reports_nothing fun msg hmsg => (hnew msg hmsg).1
      refine (h.extend hstep hsame hwire hall (fun msg hmsg => Or.inl (hnew msg hmsg).2) (fun q pl' hq hpl' => ?_)
        fun _ => tally_nothing _ _).mono hmono
      rw [tally_nothing]
      exact h.still hstep hq hpl' fun type => hnot type q
    · refine h.join hstep hjoin hwire hnew hnot hmono fun he => ?_
      obtain ⟨hnow, hwelcomed⟩ := hk he
      refine ⟨fun hK => ?_, by omega, hwelcomed⟩
      have hfirst := (h.logins hK).1
      omega

/-! ### Runs -/

/-- When the client has processed all that it was sent, it holds the stones of its player. -/
def StonesMirrored (K : Conn) (d : Duplex) : Prop :=
  d.read = (d.machine.wireTo K).length → ∀ c cl pl, LiveClient d.machine.server c cl → cl.conn = K →
    d.machine.server.playerHeap cl.player = some pl →
    ∀ r, r ≠ .nourriture → d.client.getInventoryCount r.resource = pl.inv.get r

/-- The client has logged in once at most, and answers that report stones are sent to it if and only if they are those
of its player. -/
structure OwnStones (K : Conn) (d : Duplex) (a : DuplexAction) : Prop where
  once : loginsIn d.client.sent ≤ 1
  answers : ∀ act, a = .server act → AnswersOwn K d.machine act

/-- The client has taken over the news that it has read. -/
structure MirrorInv (K : Conn) (d : Duplex) (news : List News) : Prop where
  taken : d.taken ≤ d.client.sent.length
  machine : Mirrored K d.machine (loginsIn d.received) news
  read : d.read ≤ (d.machine.wireTo K).length
  counts : d.client.known.counts = tally (news.take d.read)
  welcomed : Welcomed (d.processed K) → d.client.world.isSome

variable {d d' : Duplex}

theorem MirrorInv.server (h : MirrorInv K d news) (hG : OwnStones K d (.server act))
    (hstep : duplexStep cfg K d (.server act) = some d') : ∃ news', MirrorInv K d' news' := by
  obtain ⟨m, n, hm, rfl, hn, hreceived⟩ := duplexStep_server hstep
  have hlogins : loginsIn d.received + loginsIn (d.machine.hears K act) = loginsIn (d.client.sent.take n) := by
    rw [hreceived, loginsIn_append]
  have hone : loginsIn (d.client.sent.take n) ≤ 1 := (List.take_sublist _ _).countP_le.trans hG.once
  obtain ⟨more, hmore⟩ := h.machine.step (hG.answers act rfl) (hlogins ▸ hone) hm
  rw [hlogins] at hmore
  have hwire := machineStep_wire (K := K) hm
  refine ⟨news ++ more, hn h.taken, hmore, h.read.trans hwire.length_le, ?_, ?_⟩
  · have hread : d.read ≤ news.length := h.machine.reports.length_eq ▸ h.read
    rw [List.take_append_of_le_length hread]
    exact h.counts
  · rw [processed_append h.read hwire]
    exact h.welcomed

theorem MirrorInv.message {advice : Advice} (h : MirrorInv K d news)
    (hstep : duplexStep cfg K d (.message advice) = some d') : MirrorInv K d' news := by
  obtain ⟨msg, -, hmsg, rfl⟩ := duplexStep_message hstep
  obtain ⟨n, hn, hreports⟩ : ∃ n, news[d.read]? = some n ∧ Reports msg n := by
    have hall := h.machine.reports
    have hlt : d.read < news.length := hall.length_eq ▸ (List.getElem?_eq_some_iff.1 hmsg).1
    refine ⟨news[d.read], List.getElem?_eq_getElem hlt, ?_⟩
    obtain ⟨hlt', rfl⟩ := List.getElem?_eq_some_iff.1 hmsg
    exact hall.get hlt' hlt
  have hwire := h.machine.wire d.read msg hmsg
  obtain ⟨width, height, hgreets⟩ : ∃ width height, Greets width height msg := by
    rcases hwire with hno | hyes
    · exact hno.1
    · exact hyes.1
  have hsent : d.client.sent <+: (finalState (handleResponse advice msg) d.client).sent :=
    handleResponse_sent d.client List.prefix_rfl
  constructor
  case taken => exact h.taken.trans hsent.length_le
  case machine =>
    obtain ⟨more, hmore⟩ := hsent
    simp only [Duplex.received]
    rw [← hmore, List.take_append_of_le_length h.taken]
    exact h.machine
  case read => exact (List.getElem?_eq_some_iff.1 hmsg).1
  case counts =>
    have hworld : msg.answered = some "inventaire" → d.client.world.isSome := by
      intro hsnapshot
      rcases hwire with hno | hyes
      · exact absurd hsnapshot hno.2
      · exact h.welcomed hyes.2
    have hhandled := handleResponse_counts advice hreports hgreets hworld
    dsimp only
    rw [hhandled, h.counts, take_next hn, tally_append]
    rfl
  case welcomed =>
    rw [processed_next hmsg]
    exact fun hall => handleResponse_world advice hgreets (hall.next.imp_left h.welcomed)

theorem MirrorInv.step {a : DuplexAction} (h : MirrorInv K d news) (hG : OwnStones K d a)
    (hstep : duplexStep cfg K d a = some d') : ∃ news', MirrorInv K d' news' := by
  cases a with
  | server act => exact h.server hG hstep
  | message advice => exact ⟨news, h.message hstep⟩
  | close =>
    cases hstep
    exact ⟨news, h.taken, h.machine, h.read, h.counts, h.welcomed⟩
  | error =>
    cases hstep
    exact ⟨news, h.taken, h.machine, h.read, h.counts, h.welcomed⟩

theorem mirrorInv_init (cfg : Config) (width height : Nat) (teams : List String) (nbClients : Nat)
    (counts : Nat → InventoryType → Nat) (teamName : String) (K : Conn) :
    MirrorInv K (duplexInit cfg width height teams nbClients counts teamName) [] := by
  have hnobody : ∀ q, ¬ PlaysFor (machineInit cfg width height teams nbClients counts).server K q := by
    rintro q ⟨c, cl, hc, -⟩
    cases hc.heap
  refine ⟨Nat.le_refl _, ⟨⟨buffersWF_init _ _ _, registered_init _ _ _ _ _, fun _ _ hc => (by cases hc.heap), rfl⟩,
    .nil, ?_, ?_, ?_, ?_, fun _ => rfl⟩, Nat.le_refl _, rfl, ?_⟩
  · intro n msg hmsg
    cases hmsg
  · exact fun q _ hq => absurd hq (hnobody q)
  · exact fun q _ hq => absurd hq (hnobody q)
  · intro hK
    cases hK
  · rintro ⟨msg, hmsg, -⟩
    cases hmsg

/-- In every run of a client that logs in once, in which the answers that report stones are sent to the connection of
the client if and only if they are those of its player: when the client has processed all that it was sent, it holds
the stones of its player. -/
theorem stones_mirrored (cfg : Config) (width height : Nat) (teams : List String) (nbClients : Nat)
    (counts : Nat → InventoryType → Nat) (teamName : String) (K : Conn) (as : List DuplexAction)
    (hG : Guarded (duplexStep cfg K) (OwnStones K) (duplexInit cfg width height teams nbClients counts teamName) as)
    {d : Duplex}
    (h : run (duplexStep cfg K) (duplexInit cfg width height teams nbClients counts teamName) as = some d) :
    StonesMirrored K d := by
  obtain ⟨news, hinv⟩ := hG.invariant (I := fun d => ∃ news, MirrorInv K d news)
    (fun d a d' hstep hG ⟨news, hinv⟩ => hinv.step hG hstep) h ⟨[], mirrorInv_init ..⟩
  intro hread c cl pl hc hconn hpl r hr
  have hall : news.take d.read = news := by
    rw [hread, hinv.machine.reports.length_eq, List.take_length]
  have hcounts := congrFun hinv.counts r
  rw [hall, hinv.machine.agree cl.player pl ⟨c, cl, hc, hconn, rfl⟩ hpl r hr] at hcounts
  exact hcounts

private theorem playsFor_iff {s : Server} {q : Addr} : PlaysFor s K q ↔
    (s.live.any fun c => (s.clientHeap c).any fun cl => decide (cl.conn = K ∧ cl.player = q)) = true := by
  simp only [List.any_eq_true, Option.any_eq_true, decide_eq_true_eq]
  constructor
  · rintro ⟨c, cl, hc, hcl⟩
    exact ⟨c, hc.live, cl, hc.heap, hcl⟩
  · rintro ⟨c, hlive, cl, hheap, hcl⟩
    exact ⟨c, cl, ⟨hlive, hheap⟩, hcl⟩

instance (s : Server) (K : Conn) (q : Addr) : Decidable (PlaysFor s K q) := decidable_of_iff _ playsFor_iff.symm

/-- A test for `OwnStones`. -/
def ownTest (K : Conn) (d : Duplex) (a : DuplexAction) : Bool :=
  decide (loginsIn d.client.sent ≤ 1) &&
    match a with
    | .server act => match d.machine.calls act with
      | some (type, p) => !type.reports || (d.machine.server.playerHeap p).all fun pl =>
        decide (d.machine.session pl.id = some K ↔ PlaysFor d.machine.server K p)
      | none => true
    | _ => true

private theorem ownStones_of_test (d : Duplex) (a : DuplexAction) (h : ownTest K d a) : OwnStones K d a := by
  simp only [ownTest, Bool.and_eq_true, decide_eq_true_eq] at h
  refine ⟨h.1, ?_⟩
  rintro act rfl type p pl hcalls htype hpl
  have htest := h.2
  simp only [hcalls] at htest
  simpa [htype, hpl] using htest

/-- The server receives a command on `fd`, and executes it at the time `t`. -/
def obeyed (fd : Fd) (cmd : Command) (t : Nat) : List DuplexAction :=
  (scanPass [fd] [.receive (.text (some (createCommandJsonMessage cmd))) ⟨0, 0, 0⟩] 0 ++ idlePass t).map .server

/-- The client, on the descriptor `fd`, looks around and takes a stone. -/
def takesLinemate (fd : Fd) : List DuplexAction :=
  obeyed fd { type := .voir } 7 ++ [.message (some [{ type := .prend, argument := "linemate" }])] ++
    obeyed fd { type := .prend, argument := "linemate" } 14 ++ [.message (some [])]

theorem stones_mirrored_taken : ∃ d c cl pl,
    run (duplexStep shippedConfig 1) stoneDuplex (clientEnters ++ otherEnters ++ takesLinemate 4) = some d ∧
    d.read = (d.machine.wireTo 1).length ∧ LiveClient d.machine.server c cl ∧ cl.conn = 1 ∧
    d.machine.server.playerHeap cl.player = some pl ∧ pl.inv.linemate = 1 ∧
    ∀ r, r ≠ .nourriture → d.client.getInventoryCount r.resource = pl.inv.get r := by
  have hrun : ((run (duplexStep shippedConfig 1) stoneDuplex (clientEnters ++ otherEnters ++ takesLinemate 4)).bind
      fun d => (d.machine.server.clientHeap 0).bind fun cl => (d.machine.server.playerHeap cl.player).map fun pl =>
        [decide (d.read = (d.machine.wireTo 1).length), decide (0 ∈ d.machine.server.live), decide (cl.conn = 1),
          decide (pl.inv.linemate = 1)]) = some [true, true, true, true] := by decide +kernel
  have hguard : testGuard (duplexStep shippedConfig 1) (ownTest 1) stoneDuplex
      (clientEnters ++ otherEnters ++ takesLinemate 4) := by decide +kernel
  obtain ⟨d, hd, hrun⟩ := Option.bind_eq_some_iff.1 hrun
  obtain ⟨cl, hcl, hrun⟩ := Option.bind_eq_some_iff.1 hrun
  obtain ⟨pl, hpl, hfacts⟩ := Option.map_eq_some_iff.1 hrun
  simp only [List.cons.injEq, decide_eq_true_eq, and_true] at hfacts
  obtain ⟨hread, hlive, hconn, hone⟩ := hfacts
  have hall := stones_mirrored shippedConfig 1 1 ["red"] 2 (fun _ _ => 1) "red" 1 _
    (.of_test ownStones_of_test hguard) hd
  exact ⟨d, 0, cl, pl, hd, hread, ⟨hlive, hcl⟩, hconn, hpl, hone, hall hread 0 cl pl ⟨hlive, hcl⟩ hconn hpl⟩

/-- A connection is closed by the removal queued for the one that had its descriptor before, while its handshake is
pending.  The handshake fails after the next connection has logged in on the descriptor, and closes that connection,
whose player lives on; the client connects and gets the descriptor again. -/
def staleHandshake : List DuplexAction :=
  otherEnters ++
    (scanPass [5] [.receive .closed ⟨0, 0, 0⟩] 0 ++ scanPass [3] [.accept 5] 1 ++ scanPass [3] [.accept 5] 0 ++
      handshakePass ++ scanPass [5] [.receive loginMessage ⟨0, 0, 0⟩] 0 ++
      scanPass [3] [.handshake false, .accept 5] 0 ++ handshakePass).map .server

/-- The client, whose connection is the fourth, logs in on this descriptor. -/
def staleTake : List DuplexAction :=
  staleHandshake ++ [.message none] ++ (scanPass [5] [.receive loginMessage ⟨0, 0, 0⟩] 0).map .server ++
    [.message none] ++ takesLinemate 5

/-- The client logs in once and takes a stone; the server gives it to the player of another connection. -/
theorem stone_given_to_other : ∃ d,
    run (duplexStep shippedConfig 4) stoneDuplex staleTake = some d ∧ loginsIn d.client.sent = 1 ∧
    d.client.getInventoryCount .linemate = 1 ∧ ¬ StonesMirrored 4 d := by
  have hrun : ((run (duplexStep shippedConfig 4) stoneDuplex staleTake).bind fun d =>
      (d.machine.server.clientHeap 4).bind fun cl => (d.machine.server.playerHeap cl.player).map fun pl =>
        [decide (d.read = (d.machine.wireTo 4).length), decide (4 ∈ d.machine.server.live), decide (cl.conn = 4),
          decide (pl.inv.linemate = 0), decide (loginsIn d.client.sent = 1),
          decide (d.client.getInventoryCount .linemate = 1)]) = some [true, true, true, true, true, true] := by
    decide +kernel
  obtain ⟨d, hd, hrun⟩ := Option.bind_eq_some_iff.1 hrun
  obtain ⟨cl, hcl, hrun⟩ := Option.bind_eq_some_iff.1 hrun
  obtain ⟨pl, hpl, hfacts⟩ := Option.map_eq_some_iff.1 hrun
  simp only [List.cons.injEq, decide_eq_true_eq, and_true] at hfacts
  obtain ⟨hread, hlive, hconn, hzero, honce, htaken⟩ := hfacts
  refine ⟨d, hd, honce, htaken, fun hall => ?_⟩
  have hsame : d.client.getInventoryCount .linemate = pl.inv.linemate :=
    hall hread 4 cl pl ⟨hlive, hcl⟩ hconn hpl .linemate (by decide)
  rw [htaken, hzero] at hsame
  cases hsame

end Zappy

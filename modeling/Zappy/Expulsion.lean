import Zappy.Notices
import Zappy.Sightings

/-!
# Expulsions (`m_command_expulse`)

The loop walks over the list of the tile and moves the players it finds to the head of the next tile's list, so
after the first of them it goes on in that list.  Two players moved this way take turns at its head for ever.  The
command does what it is for when the player is alone on its tile, or when one other player is there and nobody
stands on the tile ahead.
-/

namespace Zappy

open LinkedList Run

variable {s : Server} {pl : Player} {placed : Addr → Prop} {L : Nat → List Addr} {l : List Addr}

/-! ### The loop on one list -/

/-- The loop of `m_command_expulse` from a node on. -/
def expulseLoop (pl : Player) (newPos : Position) (n : Nat) (s : Server) (it : Option Addr) : Option Server :=
  forEach (expulseTurn pl newPos) Server.nextOnTile n s it

/-- The nodes whose descriptor is that of `pl`, which the loop leaves alone. -/
def Spared (s : Server) (pl : Player) (l : List Addr) : Prop :=
  ∀ x ∈ l, ∀ r, s.playerHeap x = some r → r.id = pl.id

theorem Tiles.nextOnTile_eq (hL : Tiles s placed L) {t : Nat} (ht : t < s.mapX * s.mapY) {l₁ l₂ : List Addr}
    {a : Addr} (he : L t = l₁ ++ a :: l₂) : s.nextOnTile a = some l₂.head? := by
  have hmem : a ∈ L t := by rw [he]; simp
  obtain ⟨r, hr⟩ := Option.isSome_iff_exists.1 (hL.live ht hmem)
  have hseg := (hL.list t ht).seg
  rw [he] at hseg
  have hnext := hseg.next_eq
  rw [Server.nextOf, hr, Option.bind_some] at hnext
  rw [Server.nextOnTile, hr, Option.map_some, hnext]

/-- The loop passes over the spared nodes. -/
theorem Tiles.skip (hL : Tiles s placed L) {t : Nat} (ht : t < s.mapX * s.mapY) (newPos : Position)
    {l₁ l₂ l₃ : List Addr} (he : L t = l₁ ++ (l₂ ++ l₃)) (hl₂ : Spared s pl l₂) (n : Nat) :
    expulseLoop pl newPos (l₂.length + n) s (l₂ ++ l₃).head? = expulseLoop pl newPos n s l₃.head? := by
  induction l₂ generalizing l₁ with
  | nil => rw [List.length_nil, Nat.zero_add, List.nil_append]
  | cons x l₂ ih =>
    have hmem : x ∈ L t := by rw [he]; simp
    obtain ⟨r, hr⟩ := Option.isSome_iff_exists.1 (hL.live ht hmem)
    have hturn : expulseTurn pl newPos s x = some s := by
      rw [expulseTurn, hr, Option.map_some, if_pos (hl₂ x (by simp) r hr)]
    have hnext : s.nextOnTile x = some (l₂ ++ l₃).head? := hL.nextOnTile_eq ht he
    have hlen : (x :: l₂).length + n = l₂.length + n + 1 := by
      rw [List.length_cons]
      omega
    rw [hlen, List.cons_append, List.head?_cons]
    simp only [expulseLoop, forEach, hturn, hnext, Option.bind_some]
    have he' : L t = (l₁ ++ [x]) ++ (l₂ ++ l₃) := by
      rw [he, List.append_assoc, List.singleton_append, List.cons_append]
    exact ih he' fun y hy => hl₂ y (List.mem_cons_of_mem _ hy)

/-- The lists after a node of tile `t` was moved to the tile at `newPos`. -/
def listsAfter (s : Server) (L : Nat → List Addr) (t : Nat) (v : Addr) (newPos : Position) : Nat → List Addr :=
  let L₁ := Function.update L t ((L t).erase v)
  Function.update L₁ (s.mapIndex newPos) (v :: L₁ (s.mapIndex newPos))

/-- The state after a player was moved and told. -/
def expelled (s : Server) (pl : Player) (newPos : Position) (v : Addr) (fd : Fd) : Server :=
  (gameMovePlayer s v newPos).createResponseToCommand fd "deplacement" none (some (directionTable pl.dir pl.dir))

private theorem expelled_same (s : Server) (pl : Player) (newPos : Position) (v : Addr) (fd : Fd) :
    SameButPlaces { s with outbox := (expelled s pl newPos v fd).outbox } (expelled s pl newPos v fd) := by
  have h := movePlayer_same s v newPos
  refine ⟨?_, h.core, h.items, h.tilePos⟩
  rw [expelled, Server.createResponseToCommand, Server.send, h.rest]

/-- A turn of the loop at a node with another descriptor: the lists after it, and the node it comes to, the old
head of the list of the tile ahead. -/
theorem Tiles.expel (hL : Tiles s placed L) {t : Nat} (ht : t < s.mapX * s.mapY) {newPos : Position}
    (hnew : s.OnMap newPos) {v : Addr} (hv : v ∈ L t) {r : Player} (hr : s.playerHeap v = some r)
    (hid : r.id ≠ pl.id) :
    expulseTurn pl newPos s v = some (expelled s pl newPos v r.id) ∧
      Tiles (expelled s pl newPos v r.id) placed (listsAfter s L t v newPos) ∧
      (expelled s pl newPos v r.id).nextOnTile v =
        some (Function.update L t ((L t).erase v) (s.mapIndex newPos)).head? := by
  have hvt := (hL.mem t ht v).1 hv
  have htile : s.mapIndex r.pos = t := by
    have hidx := hvt.2
    simpa only [Server.posOf, hr, Option.map_some, Option.some.injEq] using hidx
  have hmoved := hL.moved hvt.1 hr hnew
  rw [htile] at hmoved
  have htiles : Tiles (expelled s pl newPos v r.id) placed (listsAfter s L t v newPos) :=
    hmoved.congr rfl rfl (fun _ _ => rfl) (fun _ _ => rfl) (fun _ _ => rfl) (fun _ => rfl) (fun _ => rfl)
      fun _ => Iff.rfl
  refine ⟨?_, htiles, ?_⟩
  · rw [expulseTurn, hr, Option.map_some, if_neg hid]
    rfl
  · have hsize := (expelled_same s pl newPos v r.id).rest
    have hlt : s.mapIndex newPos < (expelled s pl newPos v r.id).mapX * (expelled s pl newPos v r.id).mapY := by
      rw [hsize]
      exact mapIndex_lt hnew
    have hhead : listsAfter s L t v newPos (s.mapIndex newPos) =
        [] ++ v :: Function.update L t ((L t).erase v) (s.mapIndex newPos) := by
      rw [listsAfter, Function.update_self]
      rfl
    exact htiles.nextOnTile_eq hlt hhead

/-- Two players with other descriptors are the first ones of the list of the tile ahead, and the loop has come to
the second of them. -/
structure TakingTurns (pl : Player) (newPos : Position) (placed : Addr → Prop) (s : Server) (it : Addr) : Prop where
  onMap : s.OnMap newPos
  lists : ∃ L a rest, Tiles s placed L ∧ L (s.mapIndex newPos) = a :: it :: rest ∧
    ∀ x, x = a ∨ x = it → ∀ r, s.playerHeap x = some r → r.id ≠ pl.id

theorem TakingTurns.turn {newPos : Position} {it : Addr} (h : TakingTurns pl newPos placed s it) :
    ∃ s' a, expulseTurn pl newPos s it = some s' ∧ s'.nextOnTile it = some (some a) ∧
      TakingTurns pl newPos placed s' a := by
  obtain ⟨hon, L, a, rest, hL, he, hids⟩ := h
  have hlt := mapIndex_lt hon
  have hmem : it ∈ L (s.mapIndex newPos) := by rw [he]; simp
  have hnd := (hL.list _ hlt).nodup
  have hait : a ≠ it := by
    rintro rfl
    rw [he] at hnd
    simp at hnd
  obtain ⟨r, hr⟩ := Option.isSome_iff_exists.1 (hL.live hlt hmem)
  obtain ⟨hturn, hL', hnext⟩ := hL.expel hlt hon hmem hr (hids it (Or.inr rfl) r hr)
  have hsame := expelled_same s pl newPos it r.id
  have herase : (L (s.mapIndex newPos)).erase it = a :: rest := by
    rw [he, List.erase_cons_tail (by simpa using hait), List.erase_cons_head]
  rw [Function.update_self, herase, List.head?_cons] at hnext
  have hidx : (expelled s pl newPos it r.id).mapIndex newPos = s.mapIndex newPos := by
    rw [hsame.rest]
    rfl
  refine ⟨_, a, hturn, hnext, ?_, _, it, rest, hL', ?_, ?_⟩
  · rw [hsame.rest]
    exact hon
  · rw [hidx, listsAfter, Function.update_self, Function.update_self, herase]
  · intro x hx r' hr'
    obtain ⟨r₀, hr₀, hcore⟩ := hsame.player hr'
    rw [(Player.core_eq hcore).1]
    exact hids x hx.symm r₀ hr₀

private theorem TakingTurns.never {newPos : Position} {it : Addr} (h : TakingTurns pl newPos placed s it) (n : Nat) :
    expulseLoop pl newPos n s (some it) = none :=
  forEach_never (fun _ _ hI => hI.turn) n h

/-! ### The whole loop -/

/-- A list up to its first node that is not spared. -/
private theorem exists_first (s : Server) (pl : Player) (hlive : ∀ x ∈ l, (s.playerHeap x).isSome) :
    Spared s pl l ∨ ∃ l₁ v l₂ r, l = l₁ ++ v :: l₂ ∧ Spared s pl l₁ ∧ s.playerHeap v = some r ∧ r.id ≠ pl.id := by
  induction l with
  | nil => exact Or.inl fun x hx => absurd hx List.not_mem_nil
  | cons x l ih =>
    obtain ⟨r, hr⟩ := Option.isSome_iff_exists.1 (hlive x List.mem_cons_self)
    by_cases hid : r.id = pl.id
    · have hx : ∀ r', s.playerHeap x = some r' → r'.id = pl.id := by
        intro r' hr'
        cases hr.symm.trans hr'
        exact hid
      rcases ih fun y hy => hlive y (List.mem_cons_of_mem _ hy) with hall | ⟨l₁, v, l₂, r', rfl, hl₁, hv, hvid⟩
      · left
        intro y hy
        rcases List.mem_cons.1 hy with rfl | hy
        · exact hx
        · exact hall y hy
      · right
        refine ⟨x :: l₁, v, l₂, r', rfl, ?_, hv, hvid⟩
        intro y hy
        rcases List.mem_cons.1 hy with rfl | hy
        · exact hx
        · exact hl₁ y hy
    · exact Or.inr ⟨[], x, l, r, rfl, fun y hy => absurd hy List.not_mem_nil, hr, hid⟩

/-- One turn of the loop. -/
private theorem expulseLoop_succ {newPos : Position} {s₁ : Server} {it : Addr} {next : Option Addr}
    (hturn : expulseTurn pl newPos s it = some s₁) (hnext : s₁.nextOnTile it = some next) (n : Nat) :
    expulseLoop pl newPos (n + 1) s (some it) = expulseLoop pl newPos n s₁ next := by
  simp only [expulseLoop, forEach, hturn, hnext, Option.bind_some]

/-- A second player that is not spared, behind the head of the list of the tile ahead: the loop never ends. -/
private theorem Tiles.expulse_never (hL : Tiles s placed L) {newPos : Position} (hnew : s.OnMap newPos) {v w : Addr}
    {l₁ l₂ : List Addr} (he : L (s.mapIndex newPos) = v :: (l₁ ++ w :: l₂)) (hl₁ : Spared s pl l₁)
    (hv : ∀ r, s.playerHeap v = some r → r.id ≠ pl.id) {r : Player} (hw : s.playerHeap w = some r)
    (hwid : r.id ≠ pl.id) (n : Nat) : expulseLoop pl newPos n s (l₁ ++ w :: l₂).head? = none := by
  have hlt := mapIndex_lt hnew
  have hmem : w ∈ L (s.mapIndex newPos) := by rw [he]; simp
  have hnd := (hL.list _ hlt).nodup
  obtain ⟨hturn, hL', hnext⟩ := hL.expel hlt hnew hmem hw hwid
  have hsame := expelled_same s pl newPos w r.id
  have herase : (L (s.mapIndex newPos)).erase w = v :: (l₁ ++ l₂) := by
    rw [he] at hnd ⊢
    rw [List.nodup_cons, List.nodup_middle, List.nodup_cons] at hnd
    have hvw : v ≠ w := by
      rintro rfl
      exact hnd.1 (by simp)
    have hwl₁ : w ∉ l₁ := fun h => hnd.2.1 (List.mem_append_left _ h)
    rw [List.erase_cons_tail (by simpa using hvw), List.erase_append_right _ hwl₁, List.erase_cons_head]
  rw [Function.update_self, herase, List.head?_cons] at hnext
  have hspin : TakingTurns pl newPos placed (expelled s pl newPos w r.id) v := by
    have hidx : (expelled s pl newPos w r.id).mapIndex newPos = s.mapIndex newPos := by
      rw [hsame.rest]
      rfl
    refine ⟨?_, _, w, l₁ ++ l₂, hL', ?_, ?_⟩
    · rw [hsame.rest]
      exact hnew
    · rw [hidx, listsAfter, Function.update_self, Function.update_self, herase]
    · intro x hx r' hr'
      obtain ⟨r₀, hr₀, hcore⟩ := hsame.player hr'
      rw [(Player.core_eq hcore).1]
      rcases hx with rfl | rfl
      · cases hw.symm.trans hr₀
        exact hwid
      · exact hv r₀ hr₀
  have he' : L (s.mapIndex newPos) = [v] ++ (l₁ ++ w :: l₂) := he
  have hskip := hL.skip hlt newPos he' hl₁ (n + 1)
  rw [List.head?_cons, expulseLoop_succ hturn hnext, hspin.never] at hskip
  have hadd : l₁.length + (n + 1) = l₁.length + 1 + n := by omega
  rw [hadd] at hskip
  exact forEach_none_of_add hskip

/-- What the loop does: nothing when all players of the tile are spared; else it moves the first one that is not,
and ends if it finds only spared players behind it on the tile ahead, and goes on for ever if it does not. -/
theorem Tiles.expulseLoop_cases (hL : Tiles s placed L) (pl : Player) {t : Nat} (ht : t < s.mapX * s.mapY)
    {newPos : Position} (hnew : s.OnMap newPos) :
    (Spared s pl (L t) ∧ ∃ n, expulseLoop pl newPos n s (s.map t).players = some s) ∨
    ∃ v r, v ∈ L t ∧ s.playerHeap v = some r ∧ r.id ≠ pl.id ∧
      ((Spared s pl (Function.update L t ((L t).erase v) (s.mapIndex newPos)) ∧
          ∃ n, expulseLoop pl newPos n s (s.map t).players = some (expelled s pl newPos v r.id)) ∨
        ¬Spared s pl (Function.update L t ((L t).erase v) (s.mapIndex newPos)) ∧
          ∀ n, expulseLoop pl newPos n s (s.map t).players = none) := by
  have hlt := mapIndex_lt hnew
  have hhead : (s.map t).players = (L t).head? := (hL.list t ht).seg.head_eq
  rw [hhead]
  rcases exists_first s pl fun x hx => hL.live ht hx with hall | ⟨l₁, v, l₂, r, he, hl₁, hr, hid⟩
  · left
    have he : L t = [] ++ (L t ++ []) := by simp
    have hskip := hL.skip ht newPos he hall 0
    rw [List.append_nil] at hskip
    exact ⟨hall, _, hskip⟩
  · right
    have hmem : v ∈ L t := by rw [he]; simp
    obtain ⟨hturn, hL', hnext⟩ := hL.expel ht hnew hmem hr hid
    have hsame := expelled_same s pl newPos v r.id
    have hrest : (expelled s pl newPos v r.id).OnMap newPos ∧
        (expelled s pl newPos v r.id).mapIndex newPos = s.mapIndex newPos := by
      rw [hsame.rest]
      exact ⟨hnew, rfl⟩
    have hids : ∀ x r', (expelled s pl newPos v r.id).playerHeap x = some r' →
        ∃ r₀, s.playerHeap x = some r₀ ∧ r'.id = r₀.id := by
      intro x r' hr'
      obtain ⟨r₀, hr₀, hcore⟩ := hsame.player hr'
      exact ⟨r₀, hr₀, (Player.core_eq hcore).1⟩
    -- the loop comes to `v`, and after its turn to the list of the tile ahead behind `v`
    have hto : ∀ n, expulseLoop pl newPos (l₁.length + (n + 1)) s (L t).head? =
        expulseLoop pl newPos n (expelled s pl newPos v r.id)
          (Function.update L t ((L t).erase v) (s.mapIndex newPos)).head? := by
      intro n
      have he' : L t = [] ++ (l₁ ++ v :: l₂) := he
      have hskip := hL.skip ht newPos he' hl₁ (n + 1)
      rw [List.head?_cons, expulseLoop_succ hturn hnext, ← he] at hskip
      exact hskip
    have hahead : listsAfter s L t v newPos ((expelled s pl newPos v r.id).mapIndex newPos) =
        v :: Function.update L t ((L t).erase v) (s.mapIndex newPos) := by
      rw [hrest.2, listsAfter, Function.update_self]
    have hlt' := mapIndex_lt hrest.1
    have hlive : ∀ x ∈ Function.update L t ((L t).erase v) (s.mapIndex newPos),
        ((expelled s pl newPos v r.id).playerHeap x).isSome := by
      intro x hx
      refine hL'.live hlt' ?_
      rw [hahead]
      exact List.mem_cons_of_mem _ hx
    refine ⟨v, r, hmem, hr, hid, ?_⟩
    rcases exists_first _ pl hlive with hall | ⟨l₃, w, l₄, r', he', hl₃, hw, hwid⟩
    · left
      have hspared : Spared s pl (Function.update L t ((L t).erase v) (s.mapIndex newPos)) := by
        intro x hx r₀ hr₀
        obtain ⟨r₁, hr₁, hcore⟩ := hsame.player' hr₀
        rw [← (Player.core_eq hcore).1]
        exact hall x hx r₁ hr₁
      have hback : listsAfter s L t v newPos ((expelled s pl newPos v r.id).mapIndex newPos) =
          [v] ++ (Function.update L t ((L t).erase v) (s.mapIndex newPos) ++ []) := by
        rw [hahead, List.append_nil, List.singleton_append]
      have hskip := hL'.skip hlt' newPos hback hall 0
      rw [List.append_nil] at hskip
      exact ⟨hspared, _, (hto _).trans hskip⟩
    · right
      constructor
      · intro hspared
        obtain ⟨r₀, hr₀, hidr⟩ := hids w r' hw
        refine hwid (hidr.trans (hspared w ?_ r₀ hr₀))
        rw [he']
        simp
      intro n
      rw [he'] at hahead
      have hv : ∀ r₁, (expelled s pl newPos v r.id).playerHeap v = some r₁ → r₁.id ≠ pl.id := by
        intro r₁ hr₁
        obtain ⟨r₀, hr₀, hidr⟩ := hids v r₁ hr₁
        cases hr.symm.trans hr₀
        rw [hidr]
        exact hid
      have hnever := hL'.expulse_never hrest.1 hahead hl₃ hv hw hwid n
      rw [← he', ← hto n] at hnever
      have hadd : l₁.length + (n + 1) = l₁.length + 1 + n := by omega
      rw [hadd] at hnever
      exact forEach_none_of_add hnever

/-! ### The command -/

/-- What an expulsion by `p` is for: the other players of its tile stand one step ahead, everybody else where they
were, and each of those players was sent one notice. -/
structure Expels (s : Server) (p : Addr) (pl : Player) (s' : Server) : Prop where
  places : ∀ q r, s.playerHeap q = some r → ∃ r', s'.playerHeap q = some r' ∧
    r'.pos = if q ≠ p ∧ r.pos = pl.pos then stepAhead s pl.pos pl.dir else r.pos
  notices : ∃ victims : List (Addr × Player), victims.Nodup ∧
    (∀ q r, (q, r) ∈ victims ↔ q ≠ p ∧ s.playerHeap q = some r ∧ r.pos = pl.pos) ∧
    s'.outbox = s.outbox ++ victims.map (fun v => expulsionNotice pl v.2.id) ++
      [(pl.id, response "expulse" none (some "ok"))]

/-- `p` is alone on its tile; or one other player is there, on another descriptor, and the players of the tile
ahead, if it is another tile, have the descriptor of `p`. -/
def RoomToExpel (s : Server) (p : Addr) (pl : Player) : Prop :=
  ¬OthersOn s p pl.pos ∨
    ∃ v r, v ≠ p ∧ s.playerHeap v = some r ∧ r.pos = pl.pos ∧ r.id ≠ pl.id ∧
      (∀ q r', s.playerHeap q = some r' → r'.pos = pl.pos → q = p ∨ q = v) ∧
      ∀ q r', s.playerHeap q = some r' → r'.pos = stepAhead s pl.pos pl.dir → r'.pos ≠ pl.pos → r'.id = pl.id

theorem commandExpulse_loop (fuel : Nat) (s : Server) (pl : Player) :
    commandExpulse fuel s pl =
      (expulseLoop pl (stepAhead s pl.pos pl.dir) fuel s (s.map (s.mapIndex pl.pos)).players).map fun s' =>
        s'.createResponseToCommand pl.id "expulse" none (some "ok") := by
  unfold commandExpulse expulseLoop
  cases (s.map (s.mapIndex pl.pos)).players with
  | none => cases fuel <;> rfl
  | some first => rfl

/-- The players in the list of a tile are those that stand on it. -/
theorem Tiles.mem_iff_pos (hL : Tiles s (fun q => (s.posOf q).isSome) L) {tile : Position} (ht : s.OnMap tile)
    (q : Addr) : q ∈ L (s.mapIndex tile) ↔ ∃ r, s.playerHeap q = some r ∧ r.pos = tile := by
  rw [hL.mem _ (mapIndex_lt ht)]
  constructor
  · rintro ⟨hq, hidx⟩
    obtain ⟨r, hr⟩ := Option.isSome_iff_exists.1 (posOf_isSome.1 hq)
    have hpos : s.posOf q = some r.pos := by simp [Server.posOf, hr]
    rw [hpos, Option.map_some, Option.some.injEq] at hidx
    exact ⟨r, hr, mapIndex_inj (hL.onMap q r.pos hq hpos) ht hidx⟩
  · rintro ⟨r, hr, rfl⟩
    have hpos : s.posOf q = some r.pos := by simp [Server.posOf, hr]
    rw [hpos]
    exact ⟨rfl, rfl⟩

/-- Moving one player: where everybody is then. -/
private theorem expelled_places (pl : Player) (hL : Tiles s (fun q => (s.posOf q).isSome) L) {newPos : Position}
    (hnew : s.OnMap newPos) {v : Addr} {r : Player} (hr : s.playerHeap v = some r) (fd : Fd) {q : Addr} {rq : Player}
    (hq : s.playerHeap q = some rq) :
    ∃ r', (expelled s pl newPos v fd).playerHeap q = some r' ∧ r'.pos = if q = v then newPos else rq.pos := by
  obtain ⟨r', hr', -⟩ := (expelled_same s pl newPos v fd).player' hq
  refine ⟨r', hr', ?_⟩
  have hpos : (gameMovePlayer s v newPos).posOf q = some r'.pos := by
    have hheap : (gameMovePlayer s v newPos).playerHeap q = some r' := hr'
    rw [Server.posOf, hheap, Option.map_some]
  by_cases hqv : q = v
  · subst hqv
    rw [hL.move_posOf (by rw [hr]; rfl) hnew, Option.some.injEq] at hpos
    rw [if_pos rfl, hpos]
  · rw [movePlayer_posOf_ne s newPos hqv] at hpos
    rw [if_neg hqv]
    simpa [Server.posOf, hq] using hpos.symm

private theorem expulseLoop_unique {newPos : Position} {n m : Nat} {it : Option Addr} {s₁ s₂ : Server}
    (h₁ : expulseLoop pl newPos n s it = some s₁) (h₂ : expulseLoop pl newPos m s it = some s₂) : s₁ = s₂ := by
  have h₁' := forEach_mono (Nat.le_max_left n m) h₁
  have h₂' := forEach_mono (Nat.le_max_right n m) h₂
  exact Option.some.inj (h₁'.symm.trans h₂')

/-- The players behind the one that was moved, on the tile ahead. -/
private theorem Tiles.mem_behind (hL : Tiles s (fun q => (s.posOf q).isSome) L) {pos newPos : Position}
    (ht : s.OnMap pos) (hnew : s.OnMap newPos) {v q : Addr} :
    q ∈ Function.update L (s.mapIndex pos) ((L (s.mapIndex pos)).erase v) (s.mapIndex newPos) ↔
      (∃ r, s.playerHeap q = some r ∧ r.pos = newPos) ∧ (newPos = pos → q ≠ v) := by
  by_cases hpos : newPos = pos
  · subst hpos
    rw [Function.update_self, (hL.list _ (mapIndex_lt ht)).nodup.mem_erase_iff, hL.mem_iff_pos ht, and_comm]
    simp
  · have hne : s.mapIndex newPos ≠ s.mapIndex pos := fun he => hpos (mapIndex_inj hnew ht he)
    rw [Function.update_of_ne hne, hL.mem_iff_pos hnew]
    simp [hpos]

/-- The command has one result at most: that of its loop, and the answer. -/
theorem commandExpulse_result {n fuel : Nat} {s₁ s' : Server}
    (hloop : expulseLoop pl (stepAhead s pl.pos pl.dir) n s (s.map (s.mapIndex pl.pos)).players = some s₁)
    (h : commandExpulse fuel s pl = some s') :
    s' = s₁.createResponseToCommand pl.id "expulse" none (some "ok") := by
  rw [commandExpulse_loop, Option.map_eq_some_iff] at h
  obtain ⟨s₂, h₂, rfl⟩ := h
  rw [expulseLoop_unique h₂ hloop]

/-- When nobody was moved: there was nobody to move. -/
private theorem expels_nobody_iff {p : Addr}
    (hp : ∀ q r, s.playerHeap q = some r → q ≠ p → r.pos = pl.pos → r.id = pl.id) :
    Expels s p pl (s.createResponseToCommand pl.id "expulse" none (some "ok")) ↔ RoomToExpel s p pl := by
  constructor
  · rintro ⟨-, victims, -, hvictims, hout⟩
    left
    rintro ⟨q, r, hqp, hq, hpos⟩
    have hlen := congrArg List.length hout
    simp only [Server.createResponseToCommand, Server.send, List.length_append, List.length_map] at hlen
    have hnil : victims = [] := List.length_eq_zero_iff.1 (by omega)
    have hmem := (hvictims q r).2 ⟨hqp, hq, hpos⟩
    rw [hnil] at hmem
    cases hmem
  · rintro (halone | ⟨v, r, hvp, hr, hpos, hid, -⟩)
    · refine ⟨fun q r hq => ⟨r, hq, ?_⟩, [], List.nodup_nil, fun q r => ?_, by simp [Server.createResponseToCommand,
        Server.send]⟩
      · rw [if_neg]
        rintro ⟨hqp, hpos⟩
        exact halone ⟨q, r, hqp, hq, hpos⟩
      · constructor
        · intro hmem
          cases hmem
        · rintro ⟨hqp, hq, hpos⟩
          exact absurd ⟨q, r, hqp, hq, hpos⟩ halone
    · exact absurd (hp v r hr hvp hpos) hid

/-- When one player was moved: it was the only one to move. -/
private theorem expels_one_iff (hL : Tiles s (fun q => (s.posOf q).isSome) L) {p v : Addr} {r : Player}
    (hnew : s.OnMap (stepAhead s pl.pos pl.dir)) (hvp : v ≠ p) (hr : s.playerHeap v = some r)
    (hpos : r.pos = pl.pos) :
    Expels s p pl ((expelled s pl (stepAhead s pl.pos pl.dir) v r.id).createResponseToCommand pl.id "expulse" none
        (some "ok")) ↔
      ∀ q r', s.playerHeap q = some r' → r'.pos = pl.pos → q = p ∨ q = v := by
  constructor
  · rintro ⟨-, victims, -, hvictims, hout⟩ q r' hq hqpos
    have hlen := congrArg List.length hout
    simp only [Server.createResponseToCommand, Server.send, expelled, (movePlayer_same ..).outbox,
      List.length_append, List.length_map, List.length_singleton] at hlen
    obtain ⟨x, rfl⟩ := List.length_eq_one_iff.1 (show victims.length = 1 by omega)
    by_cases hqp : q = p
    · exact Or.inl hqp
    · right
      have hv := List.mem_singleton.1 ((hvictims v r).2 ⟨hvp, hr, hpos⟩)
      have hq' := List.mem_singleton.1 ((hvictims q r').2 ⟨hqp, hq, hqpos⟩)
      exact congrArg Prod.fst (hq'.trans hv.symm)
  · intro honly
    refine ⟨fun q rq hq => ?_, [(v, r)], List.nodup_singleton _, fun q r' => ?_, ?_⟩
    · obtain ⟨r', hr', hpos'⟩ := expelled_places pl hL hnew hr r.id hq
      refine ⟨r', hr', hpos'.trans ?_⟩
      by_cases hqv : q = v
      · subst hqv
        cases hr.symm.trans hq
        rw [if_pos rfl, if_pos ⟨hvp, hpos⟩]
      · rw [if_neg hqv, if_neg]
        rintro ⟨hqp, hqpos⟩
        rcases honly q rq hq hqpos with h | h
        · exact hqp h
        · exact hqv h
    · rw [List.mem_singleton, Prod.mk.injEq]
      constructor
      · rintro ⟨rfl, rfl⟩
        exact ⟨hvp, hr, hpos⟩
      · rintro ⟨hqp, hq, hqpos⟩
        obtain rfl := (honly q r' hq hqpos).resolve_left hqp
        cases hr.symm.trans hq
        exact ⟨rfl, rfl⟩
    · simp only [Server.createResponseToCommand, Server.send, expelled, (movePlayer_same ..).outbox, List.map_cons,
        List.map_nil]
      rfl

/-- `m_command_expulse` ends and does what it is for exactly if there is room to expel. -/
private theorem Placed.expulse_iff {width height : Nat} (hp : Placed width height s) {p : Addr}
    (hpl : s.playerHeap p = some pl) :
    (∃ fuel s', commandExpulse fuel s pl = some s' ∧ Expels s p pl s') ↔ RoomToExpel s p pl := by
  have ht := hp.onMap hpl
  have hnew := onMap_stepAhead ht pl.dir
  obtain ⟨-, -, -, L, hL⟩ := hp
  have hmem := hL.mem_iff_pos ht
  rcases hL.expulseLoop_cases pl (mapIndex_lt ht) hnew with ⟨hspared, n, hloop⟩ | ⟨v, r, hv, hr, hid, hrest⟩
  · -- nobody is moved
    have hsame : ∀ q r, s.playerHeap q = some r → q ≠ p → r.pos = pl.pos → r.id = pl.id :=
      fun q r hq _ hpos => hspared q ((hmem q).2 ⟨r, hq, hpos⟩) r hq
    rw [← expels_nobody_iff hsame]
    constructor
    · rintro ⟨fuel, s', hcmd, hexp⟩
      rwa [commandExpulse_result hloop hcmd] at hexp
    · intro hexp
      exact ⟨n, _, by rw [commandExpulse_loop, hloop]; rfl, hexp⟩
  · obtain ⟨r', hr', hpos⟩ := (hmem v).1 hv
    cases hr.symm.trans hr'
    have hvp : v ≠ p := by
      rintro rfl
      cases hr.symm.trans hpl
      exact hid rfl
    have hbehind := fun q => hL.mem_behind (v := v) (q := q) ht hnew
    -- the players behind `v` on the tile ahead are spared exactly if those of another tile are, once `v` is the
    -- only one to move
    have hahead : (∀ q r', s.playerHeap q = some r' → r'.pos = pl.pos → q = p ∨ q = v) →
        (Spared s pl (Function.update L (s.mapIndex pl.pos) ((L (s.mapIndex pl.pos)).erase v)
            (s.mapIndex (stepAhead s pl.pos pl.dir))) ↔
          ∀ q r', s.playerHeap q = some r' → r'.pos = stepAhead s pl.pos pl.dir → r'.pos ≠ pl.pos → r'.id = pl.id) := by
      intro honly
      constructor
      · intro hspared q r' hq hqnew hqpos
        refine hspared q ((hbehind q).2 ⟨⟨r', hq, hqnew⟩, ?_⟩) r' hq
        intro he
        exact absurd (hqnew.trans he) hqpos
      · intro hids q hq r' hr'
        obtain ⟨⟨r₀, hr₀, hqnew⟩, hqv⟩ := (hbehind q).1 hq
        cases hr'.symm.trans hr₀
        by_cases hqpos : r'.pos = pl.pos
        · rcases honly q r' hr' hqpos with rfl | rfl
          · cases hr'.symm.trans hpl
            rfl
          · exact absurd rfl (hqv (hqnew.symm.trans hqpos))
        · exact hids q r' hr' hqnew hqpos
    constructor
    · rintro ⟨fuel, s', hcmd, hexp⟩
      rcases hrest with ⟨hspared, n, hloop⟩ | ⟨-, hnever⟩
      · rw [commandExpulse_result hloop hcmd, expels_one_iff hL hnew hvp hr hpos] at hexp
        exact Or.inr ⟨v, r, hvp, hr, hpos, hid, hexp, (hahead hexp).1 hspared⟩
      · rw [commandExpulse_loop, hnever] at hcmd
        cases hcmd
    · rintro (halone | ⟨v', r₁, hvp', hr₁, hpos₁, -, honly, hids⟩)
      · exact absurd ⟨v, r, hvp, hr, hpos⟩ halone
      · obtain rfl := (honly v r hr hpos).resolve_left hvp
        rcases hrest with ⟨-, n, hloop⟩ | ⟨hnot, -⟩
        · exact ⟨n, _, by rw [commandExpulse_loop, hloop]; rfl, (expels_one_iff hL hnew hvp hr hpos).2 honly⟩
        · exact absurd ((hahead honly).2 hids) hnot

/-- With a player to expel on the tile and another one on the tile ahead, the command never ends. -/
private theorem Placed.expulse_never {width height : Nat} (hp : Placed width height s) {p v q : Addr} {r r' : Player}
    (hpl : s.playerHeap p = some pl) (hv : s.playerHeap v = some r) (hvpos : r.pos = pl.pos) (hvid : r.id ≠ pl.id)
    (hq : s.playerHeap q = some r') (hqpos : r'.pos = stepAhead s pl.pos pl.dir) (hqid : r'.id ≠ pl.id)
    (hne : stepAhead s pl.pos pl.dir ≠ pl.pos) (fuel : Nat) : commandExpulse fuel s pl = none := by
  have ht := hp.onMap hpl
  have hnew := onMap_stepAhead ht pl.dir
  obtain ⟨-, -, -, L, hL⟩ := hp
  rcases hL.expulseLoop_cases pl (mapIndex_lt ht) hnew with ⟨hspared, -⟩ | ⟨w, rw, -, -, -, hrest⟩
  · exact absurd (hspared v ((hL.mem_iff_pos ht v).2 ⟨r, hv, hvpos⟩) r hv) hvid
  · rcases hrest with ⟨hspared, -⟩ | ⟨-, hnever⟩
    · have hbehind := (hL.mem_behind (v := w) ht hnew).2 ⟨⟨r', hq, hqpos⟩, fun he => absurd he hne⟩
      exact absurd (hspared q hbehind r' hq) hqid
    · rw [commandExpulse_loop, hnever]
      rfl

/-- In every state that a run of the game reaches, `m_command_expulse` of a live player ends and does what it is for
exactly if there is room to expel. -/
theorem expulsion_exact_iff (cfg : Config) {width height : Nat} (hw : 0 < width) (hh : 0 < height)
    (teams : List String) (nbClients : Nat) (counts : Nat → InventoryType → Nat) (as : List GameAction) {s : Server}
    (h : run (gameStep cfg) (gameInit cfg width height teams nbClients counts) as = some s) (c : Addr)
    (b : EventBuffer) {p : Addr} {pl : Player} (hpl : s.playerHeap p = some pl) :
    (∃ fuel s', commandExpulse fuel (s.setClientBuffer c b) pl = some s' ∧ Expels (s.setClientBuffer c b) p pl s') ↔
      RoomToExpel s p pl := by
  obtain ⟨-, hp⟩ := placed_of_run hw hh h
  have hp' : Placed width height (s.setClientBuffer c b) := hp.congr rfl rfl rfl rfl (Nat.le_refl _)
  exact hp'.expulse_iff hpl

/-- One of two players on a tile expels the other. -/
theorem expulsion_exact_iff_pair : ∃ s pl, run (gameStep shippedConfig)
      (gameInit shippedConfig 2 2 ["red"] 3 fun _ _ => 0) meeting = some s ∧ s.playerHeap 1 = some pl ∧
    ∃ fuel s', commandExpulse fuel (s.setClientBuffer 0 {}) pl = some s' ∧
      Expels (s.setClientBuffer 0 {}) 1 pl s' := by
  have hrun : ((run (gameStep shippedConfig) (gameInit shippedConfig 2 2 ["red"] 3 fun _ _ => 0) meeting).map
      fun s => (s.nextAddr, (List.range 4).map fun q => (s.playerHeap q).map fun r => (r.id, r.pos, r.dir))) =
      some (4, [none, some (4, ⟨0, 0⟩, .north), none, some (5, ⟨0, 0⟩, .east)]) := by decide +kernel
  obtain ⟨s, hs, hfacts⟩ := Option.map_eq_some_iff.1 hrun
  obtain ⟨-, hp⟩ := placed_of_run (by decide) (by decide) hs
  simp only [Prod.mk.injEq, List.range, List.range.loop, List.map_cons, List.map_nil, List.cons.injEq,
    Option.map_eq_none_iff, Option.map_eq_some_iff, and_true] at hfacts
  obtain ⟨haddr, h0, ⟨pl, hpl, hid, hpos, hdir⟩, h2, ⟨r, hr, hrid, hrpos, hrdir⟩⟩ := hfacts
  have hlive : ∀ q r', s.playerHeap q = some r' → q = 1 ∨ q = 3 := by
    intro (q : Nat) r' hq
    have hlt : q < 4 := by
      by_contra hge
      rw [hp.fresh q (by rw [haddr]; exact Nat.le_of_not_lt hge)] at hq
      cases hq
    have hne : q ≠ 0 ∧ q ≠ 2 := by
      constructor
      · rintro rfl
        cases h0.symm.trans hq
      · rintro rfl
        cases h2.symm.trans hq
    have hodd : ∀ k : Nat, k < 4 → k ≠ 0 → k ≠ 2 → k = 1 ∨ k = 3 := by omega
    exact hodd q hlt hne.1 hne.2
  have hroom : RoomToExpel s 1 pl := by
    refine Or.inr ⟨3, r, by decide, hr, hrpos.trans hpos.symm, ?_, fun q r' hq _ => hlive q r' hq, ?_⟩
    · rw [hrid, hid]
      decide
    · intro q r' hq _ hne
      rcases hlive q r' hq with rfl | rfl
      · cases hpl.symm.trans hq
        exact absurd rfl hne
      · cases hr.symm.trans hq
        exact absurd (hrpos.trans hpos.symm) hne
  exact ⟨s, pl, hs, hpl, (expulsion_exact_iff shippedConfig (by decide) (by decide) _ _ _ _ hs 0 {} hpl).2 hroom⟩

/-- A third player stands on the tile ahead: the command of the first one never ends. -/
theorem occupied_tile_expulse_never : ∃ s pl, run (gameStep shippedConfig)
      (gameInit shippedConfig 2 2 ["red"] 3 fun _ _ => 0) (meeting ++ [.register 2 6 "red" ⟨0, 1, 1⟩]) = some s ∧
    s.playerHeap 1 = some pl ∧ ∀ fuel, commandExpulse fuel s pl = none := by
  have hrun : ((run (gameStep shippedConfig) (gameInit shippedConfig 2 2 ["red"] 3 fun _ _ => 0)
      (meeting ++ [.register 2 6 "red" ⟨0, 1, 1⟩])).bind fun s => (s.playerHeap 1).bind fun pl =>
      (s.playerHeap 3).bind fun r => (s.playerHeap 5).map fun r' =>
        ([pl.id, r.id, r'.id], [pl.pos, r.pos, r'.pos, stepAhead s pl.pos pl.dir])) =
      some ([4, 5, 6], [⟨0, 0⟩, ⟨0, 0⟩, ⟨0, 1⟩, ⟨0, 1⟩]) := by decide +kernel
  obtain ⟨s, hs, hrun⟩ := Option.bind_eq_some_iff.1 hrun
  obtain ⟨pl, hpl, hrun⟩ := Option.bind_eq_some_iff.1 hrun
  obtain ⟨r, hr, hrun⟩ := Option.bind_eq_some_iff.1 hrun
  obtain ⟨r', hr', hfacts⟩ := Option.map_eq_some_iff.1 hrun
  simp only [Prod.mk.injEq, List.cons.injEq, and_true] at hfacts
  obtain ⟨⟨hid, hrid, hrid'⟩, hpos, hrpos, hrpos', hahead⟩ := hfacts
  obtain ⟨-, hp⟩ := placed_of_run (by decide) (by decide) hs
  refine ⟨s, pl, hs, hpl, hp.expulse_never hpl hr (hrpos.trans hpos.symm) ?_ hr' (hrpos'.trans hahead.symm) ?_ ?_⟩
  · rw [hrid, hid]
    decide
  · rw [hrid', hid]
    decide
  · rw [hahead, hpos]
    decide

end Zappy

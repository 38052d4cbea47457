import Zappy.Lib.Trace
import Zappy.Lib.Turtle
import Mathlib.Data.Set.Card
import Mathlib.Algebra.Order.Ring.Int

/-!
# The rules of the game, on a board

What the game is, apart from how the server keeps it: pieces with a pose, a level and a pouch of resources, and a
stock of resources on every place.  An order is what one step of the server asks of the board, and `Rulebook.Allows`
says what it may lead to.  A piece is raised by a crew of its level on its place, so that no level is reached for
which the table has too few seats.
-/

namespace Zappy.Tabletop

open Turtle Run

variable {P O T D R : Type*}

/-- A player as it stands on the board. -/
@[ext]
structure Piece (O T D R : Type*) where
  owner : O
  pose : Pose T D
  level : ℤ
  pouch : R → ℤ

@[ext]
structure Board (P O T D R : Type*) where
  piece : P → Option (Piece O T D R)
  stock : T → R → ℤ
  finite : {p | (piece p).isSome}.Finite

structure Rulebook (T D R : Type*) where
  frame : Frame T D
  food : R
  /-- The level of which there is no next one. -/
  top : ℤ
  /-- The pieces that a level takes to leave it. -/
  crew : ℤ → ℤ
  /-- The resources that a level takes to leave it. -/
  price : ℤ → R → ℤ
  /-- A stock on which nothing more grows. -/
  full : (R → ℤ) → Bool
  seats : ℕ

/-- What one step asks of the board. -/
inductive Order (P O T D R : Type*) where
  | pass
  | enter (p : P) (owner : O) (pose : Pose T D)
  | move (p : P) (m : Move)
  | take (p : P) (r : R)
  | put (p : P) (r : R)
  | expel (p : P)
  | pay (p : P)
  | complete (p : P) (level : ℤ)
  /-- The time that a unit of food gives to the piece is over. -/
  | expire (p : P)
  | starve (p : P)
  | grow (items : T → R → ℤ)

/-! ### Boards -/

namespace Board

variable (b : Board P O T D R)

def pieces : Set P := {p | (b.piece p).isSome}

theorem mem_pieces {p : P} : p ∈ b.pieces ↔ (b.piece p).isSome := Iff.rfl

/-- The pieces of one level on a place. -/
def crew (t : T) (level : ℤ) : Set P := {p | ∃ q, b.piece p = some q ∧ q.pose.place = t ∧ q.level = level}

private theorem crew_subset (t : T) (level : ℤ) : b.crew t level ⊆ b.pieces := by
  rintro p ⟨q, hq, -, -⟩
  rw [mem_pieces, hq]
  rfl

/-- Every piece changed in its own way. -/
def mapPieces (f : P → Piece O T D R → Piece O T D R) : Board P O T D R where
  piece := fun p => (b.piece p).map (f p)
  stock := b.stock
  finite := by
    refine b.finite.subset fun v hv => ?_
    rwa [Set.mem_ofPred_eq, Option.isSome_map] at hv

/-- The pieces of one level on a place, one level higher. -/
def raise [DecidableEq T] (t : T) (level : ℤ) : Board P O T D R :=
  b.mapPieces fun _ q => if q.pose.place = t ∧ q.level = level then { q with level := q.level + 1 } else q

theorem raise_piece [DecidableEq T] (t : T) (level : ℤ) (v : P) : (b.raise t level).piece v = (b.piece v).map fun q =>
    if q.pose.place = t ∧ q.level = level then { q with level := q.level + 1 } else q := rfl

/-- The stock of one place changed. -/
def restock [DecidableEq T] (t : T) (f : (R → ℤ) → R → ℤ) : Board P O T D R :=
  { b with stock := Function.update b.stock t (f (b.stock t)) }

section Pieces

variable [DecidableEq P] (p v : P)

/-- One piece changed. -/
def modify (f : Piece O T D R → Piece O T D R) : Board P O T D R :=
  b.mapPieces fun v q => if v = p then f q else q

/-- A new piece. -/
def seat (q : Piece O T D R) : Board P O T D R where
  piece := Function.update b.piece p (some q)
  stock := b.stock
  finite := by
    refine (b.finite.insert p).subset fun v hv => ?_
    rw [Set.mem_ofPred_eq, Function.update_apply] at hv
    split at hv
    · rename_i hp
      exact Or.inl hp
    · exact Or.inr hv

/-- The board without a piece. -/
def remove : Board P O T D R where
  piece := Function.update b.piece p none
  stock := b.stock
  finite := by
    refine b.finite.subset fun v hv => ?_
    rw [Set.mem_ofPred_eq, Function.update_apply] at hv
    split at hv
    · cases hv
    · exact hv

theorem modify_piece (f : Piece O T D R → Piece O T D R) :
    (b.modify p f).piece v = if v = p then (b.piece v).map f else b.piece v := by
  simp only [modify, mapPieces]
  split
  · rfl
  · exact congrFun Option.map_id _

theorem seat_piece (q : Piece O T D R) : (b.seat p q).piece v = if v = p then some q else b.piece v :=
  Function.update_apply ..

theorem remove_piece : (b.remove p).piece v = if v = p then none else b.piece v := Function.update_apply ..

end Pieces

end Board

/-- One resource more, or less. -/
def gain [DecidableEq R] (r : R) (k : ℤ) (items : R → ℤ) : R → ℤ := Function.update items r (items r + k)

/-- A pouch with one resource more, or less. -/
def Piece.pocket [DecidableEq R] (r : R) (k : ℤ) (q : Piece O T D R) : Piece O T D R :=
  { q with pouch := gain r k q.pouch }

/-! ### The rules -/

variable {rules : Rulebook T D R} {b b' : Board P O T D R}

/-- The piece has a crew to leave its level with. -/
def Rulebook.Ready (rules : Rulebook T D R) (b : Board P O T D R) (q : Piece O T D R) : Prop :=
  q.level < rules.top ∧ rules.crew q.level ≤ (b.crew q.pose.place q.level).ncard

/-- The place has what the level costs. -/
def Rulebook.Affords (rules : Rulebook T D R) (b : Board P O T D R) (q : Piece O T D R) : Prop :=
  ∀ r, rules.price q.level r ≤ b.stock q.pose.place r

/-- What an order may lead to.  It is refused, and changes nothing, where its condition fails. -/
inductive Rulebook.Allows [AddCommGroup T] [DecidableEq P] [DecidableEq T] [DecidableEq R]
    (rules : Rulebook T D R) : Order P O T D R → Board P O T D R → Board P O T D R → Prop
  | pass (b : Board P O T D R) : Allows rules .pass b b
  | enter {b : Board P O T D R} {p : P} (owner : O) (pose : Pose T D) (hp : b.piece p = none)
      (hseat : b.pieces.ncard < rules.seats) :
      Allows rules (.enter p owner pose) b (b.seat p ⟨owner, pose, 1, fun _ => 0⟩)
  | move {b : Board P O T D R} {p : P} {q : Piece O T D R} (m : Move) (hp : b.piece p = some q) :
      Allows rules (.move p m) b (b.modify p fun q => { q with pose := rules.frame.act q.pose m })
  | take {b : Board P O T D R} {p : P} {q : Piece O T D R} {r : R} (hp : b.piece p = some q)
      (hr : 0 < b.stock q.pose.place r) :
      Allows rules (.take p r) b ((b.restock q.pose.place (gain r (-1))).modify p (Piece.pocket r 1))
  | takesNothing {b : Board P O T D R} {p : P} {q : Piece O T D R} {r : R} (hp : b.piece p = some q)
      (hr : b.stock q.pose.place r ≤ 0) : Allows rules (.take p r) b b
  | put {b : Board P O T D R} {p : P} {q : Piece O T D R} {r : R} (hp : b.piece p = some q) (hr : 0 < q.pouch r) :
      Allows rules (.put p r) b ((b.restock q.pose.place (gain r 1)).modify p (Piece.pocket r (-1)))
  | putsNothing {b : Board P O T D R} {p : P} {q : Piece O T D R} {r : R} (hp : b.piece p = some q)
      (hr : q.pouch r ≤ 0) : Allows rules (.put p r) b b
  /-- One of the pieces of other owners on the place is pushed ahead. -/
  | expel {b : Board P O T D R} {p v : P} {q w : Piece O T D R} (hp : b.piece p = some q) (hv : b.piece v = some w)
      (hplace : w.pose.place = q.pose.place) (howner : w.owner ≠ q.owner) :
      Allows rules (.expel p) b (b.modify v fun w =>
        { w with pose := ⟨q.pose.place + rules.frame.step q.pose.heading, w.pose.heading⟩ })
  | expelsNobody {b : Board P O T D R} {p : P} {q : Piece O T D R} (hp : b.piece p = some q)
      (hnobody : ∀ v w, b.piece v = some w → w.pose.place = q.pose.place → w.owner = q.owner) :
      Allows rules (.expel p) b b
  | pay {b : Board P O T D R} {p : P} {q : Piece O T D R} (hp : b.piece p = some q) (hready : rules.Ready b q)
      (hprice : rules.Affords b q) :
      Allows rules (.pay p) b (b.restock q.pose.place fun items r => items r - rules.price q.level r)
  | paysNothing {b : Board P O T D R} {p : P} {q : Piece O T D R} (hp : b.piece p = some q)
      (hnot : ¬(rules.Ready b q ∧ rules.Affords b q)) : Allows rules (.pay p) b b
  | complete {b : Board P O T D R} {p : P} {q : Piece O T D R} (hp : b.piece p = some q) (hready : rules.Ready b q) :
      Allows rules (.complete p q.level) b (b.raise q.pose.place q.level)
  | completesNothing {b : Board P O T D R} {p : P} {q : Piece O T D R} {level : ℤ} (hp : b.piece p = some q)
      (hnot : ¬(q.level = level ∧ rules.Ready b q)) : Allows rules (.complete p level) b b
  | eat {b : Board P O T D R} {p : P} {q : Piece O T D R} (hp : b.piece p = some q) (hfood : 0 < q.pouch rules.food) :
      Allows rules (.expire p) b (b.modify p (Piece.pocket rules.food (-1)))
  | leave {b : Board P O T D R} {p : P} {q : Piece O T D R} (hp : b.piece p = some q)
      (hfood : q.pouch rules.food ≤ 0) : Allows rules (.expire p) b (b.remove p)
  | starve {b : Board P O T D R} {p : P} {q : Piece O T D R} (hp : b.piece p = some q) :
      Allows rules (.starve p) b (b.modify p fun q => { q with pouch := Function.update q.pouch rules.food 0 })
  | grow (b : Board P O T D R) (items : T → R → ℤ) :
      Allows rules (.grow items) b { b with
        stock := fun t r => if rules.full (b.stock t) then b.stock t r else b.stock t r + items t r }

/-! ### Seats and levels -/

/-- Every level below that of a piece is one that a full table can leave. -/
structure Rulebook.Manned (rules : Rulebook T D R) (b : Board P O T D R) : Prop where
  seats : b.pieces.ncard ≤ rules.seats
  crew : ∀ p q, b.piece p = some q → ∀ level, 1 ≤ level → level < q.level → rules.crew level ≤ rules.seats

/-- Pieces that stay, each of which keeps its level or leaves one that a full table can leave. -/
private theorem Rulebook.Manned.mapPieces (h : rules.Manned b) {f : P → Piece O T D R → Piece O T D R}
    (hf : ∀ p q, b.piece p = some q → (f p q).level = q.level ∨
      (f p q).level = q.level + 1 ∧ rules.crew q.level ≤ rules.seats) : rules.Manned (b.mapPieces f) := by
  constructor
  case seats =>
    have hpieces : (b.mapPieces f).pieces = b.pieces := by
      ext v
      simp only [Board.mem_pieces, Board.mapPieces, Option.isSome_map]
    rw [hpieces]
    exact h.seats
  case crew =>
    intro p q' hq' level h1 hlevel
    obtain ⟨q, hq, rfl⟩ := Option.map_eq_some_iff.1 hq'
    rcases hf p q hq with hsame | ⟨hup, hcrew⟩
    · rw [hsame] at hlevel
      exact h.crew p q hq level h1 hlevel
    · rw [hup] at hlevel
      rcases Int.lt_or_eq_of_le (Int.lt_add_one_iff.1 hlevel) with hlt | rfl
      · exact h.crew p q hq level h1 hlt
      · exact hcrew

theorem Rulebook.Manned.modify [DecidableEq P] (h : rules.Manned b) {p : P} {f : Piece O T D R → Piece O T D R}
    (hf : ∀ q, (f q).level = q.level) : rules.Manned (b.modify p f) := by
  refine h.mapPieces fun v q _ => Or.inl ?_
  split
  · exact hf q
  · rfl

theorem Rulebook.Manned.restock [DecidableEq T] (h : rules.Manned b) (t : T) (f : (R → ℤ) → R → ℤ) :
    rules.Manned (b.restock t f) := ⟨h.seats, h.crew⟩

/-- A newcomer at the first level takes a seat. -/
theorem Rulebook.Manned.seat [DecidableEq P] (h : rules.Manned b) {p : P} {q : Piece O T D R} (hq : q.level = 1)
    (hseat : b.pieces.ncard < rules.seats) : rules.Manned (b.seat p q) := by
  constructor
  case seats =>
    have hsub : (b.seat p q).pieces ⊆ insert p b.pieces := by
      intro v hv
      rw [Board.mem_pieces, Board.seat_piece] at hv
      split at hv
      · rename_i hvp
        exact Or.inl hvp
      · exact Or.inr hv
    have hle := Set.ncard_le_ncard hsub (b.finite.insert p)
    have hinsert := Set.ncard_insert_le p b.pieces
    omega
  case crew =>
    intro v w hw level h1 hlevel
    rw [Board.seat_piece] at hw
    split at hw
    · cases hw
      omega
    · exact h.crew v w hw level h1 hlevel

theorem Rulebook.Manned.remove [DecidableEq P] (h : rules.Manned b) (p : P) : rules.Manned (b.remove p) := by
  have hpiece : ∀ v w, (b.remove p).piece v = some w → b.piece v = some w := by
    intro v w hw
    rw [Board.remove_piece] at hw
    split at hw
    · cases hw
    · exact hw
  constructor
  case seats =>
    have hsub : (b.remove p).pieces ⊆ b.pieces := by
      intro v hv
      obtain ⟨w, hw⟩ := Option.isSome_iff_exists.1 hv
      rw [Board.mem_pieces, hpiece v w hw]
      rfl
    exact (Set.ncard_le_ncard hsub b.finite).trans h.seats
  case crew => exact fun v w hw => h.crew v w (hpiece v w hw)

/-- A crew is no larger than the table. -/
private theorem Rulebook.Ready.crew_le {q : Piece O T D R} (h : rules.Ready b q) (hb : rules.Manned b) :
    rules.crew q.level ≤ rules.seats := by
  have hcrew := Set.ncard_le_ncard (b.crew_subset q.pose.place q.level) b.finite
  exact h.2.trans (Int.ofNat_le.2 (hcrew.trans hb.seats))

section Allows

variable [AddCommGroup T] [DecidableEq P] [DecidableEq T] [DecidableEq R]

/-- Every order that the rules allow keeps the table manned. -/
private theorem Rulebook.Allows.manned {o : Order P O T D R} (h : rules.Allows o b b') (hb : rules.Manned b) :
    rules.Manned b' := by
  cases h with
  | enter owner pose hp hseat => exact hb.seat rfl hseat
  | leave hp hfood => exact hb.remove _
  | complete hp hready =>
    refine hb.mapPieces fun v w _ => ?_
    split
    · rename_i hw
      exact Or.inr ⟨rfl, by rw [hw.2]; exact hready.crew_le hb⟩
    · exact Or.inl rfl
  | move | expel | eat | starve => exact hb.modify fun _ => rfl
  | take | put => exact (hb.restock _ _).modify fun _ => rfl
  | pay => exact hb.restock _ _
  | grow => exact ⟨hb.seats, hb.crew⟩
  | _ => exact hb

/-- A game that begins with an empty table. -/
theorem Rulebook.manned_of_trace {os : List (Order P O T D R)} (h : Trace rules.Allows b os b')
    (hempty : ∀ p, b.piece p = none) : rules.Manned b' := by
  refine h.invariant (fun _ _ _ hstep hI => hstep.manned hI) ⟨?_, fun p q hq => ?_⟩
  · have hnone : b.pieces = ∅ := by
      ext p
      simp [Board.mem_pieces, hempty p]
    rw [hnone, Set.ncard_empty]
    exact Nat.zero_le _
  · rw [hempty p] at hq
    cases hq

end Allows

end Zappy.Tabletop

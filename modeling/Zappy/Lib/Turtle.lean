import Mathlib.Algebra.Group.Hom.Defs
import Mathlib.Algebra.Module.NatInt

/-!
# Walks that turn and step ahead

A frame says where a step ahead leads for each heading, and what a turn to the right or to the left does to a
heading.  A rigid map between two frames commutes with all of it, so it carries a walk in the one to the walk with
the same moves in the other, whatever translation comes after it.
-/

namespace Zappy.Turtle

inductive Move where
  | forward | right | left
  deriving DecidableEq, Repr

structure Frame (V D : Type*) where
  step : D → V
  right : D → D
  left : D → D

@[ext]
structure Pose (V D : Type*) where
  place : V
  heading : D

variable {V V' D D' : Type*} [AddCommGroup V] [AddCommGroup V'] {F : Frame V D} {G : Frame V' D'}

/-- One move. -/
def Frame.act (F : Frame V D) (p : Pose V D) : Move → Pose V D
  | .forward => ⟨p.place + F.step p.heading, p.heading⟩
  | .right => ⟨p.place, F.right p.heading⟩
  | .left => ⟨p.place, F.left p.heading⟩

/-- A list of moves. -/
def Frame.walk (F : Frame V D) (p : Pose V D) (moves : List Move) : Pose V D := moves.foldl F.act p

@[simp] theorem walk_nil (p : Pose V D) : F.walk p [] = p := rfl

@[simp] theorem walk_cons (p : Pose V D) (m : Move) (moves : List Move) :
    F.walk p (m :: moves) = F.walk (F.act p m) moves := rfl

@[simp] theorem walk_append (p : Pose V D) (moves more : List Move) :
    F.walk p (moves ++ more) = F.walk (F.walk p moves) more := List.foldl_append

/-- A walk straight ahead. -/
theorem walk_forward (p : Pose V D) (n : Nat) :
    F.walk p (List.replicate n .forward) = ⟨p.place + n • F.step p.heading, p.heading⟩ := by
  induction n generalizing p with
  | zero => simp
  | succ n ih =>
    rw [List.replicate_succ, walk_cons, ih]
    simp only [Frame.act, succ_nsmul', add_assoc]

/-- A linear map that goes with a map of the headings. -/
structure Rigid (F : Frame V D) (G : Frame V' D') where
  linear : V →+ V'
  turn : D → D'
  step : ∀ d, G.step (turn d) = linear (F.step d)
  right : ∀ d, G.right (turn d) = turn (F.right d)
  left : ∀ d, G.left (turn d) = turn (F.left d)

/-- The rigid map and then the translation by `t`. -/
def Rigid.map (φ : Rigid F G) (t : V') (p : Pose V D) : Pose V' D' := ⟨φ.linear p.place + t, φ.turn p.heading⟩

theorem Rigid.act (φ : Rigid F G) (t : V') (p : Pose V D) (m : Move) :
    G.act (φ.map t p) m = φ.map t (F.act p m) := by
  cases m with
  | forward =>
    simp only [Frame.act, Rigid.map, φ.step, map_add, Pose.mk.injEq, and_true]
    rw [add_right_comm]
  | right => simp only [Frame.act, Rigid.map, φ.right]
  | left => simp only [Frame.act, Rigid.map, φ.left]

theorem Rigid.walk (φ : Rigid F G) (t : V') (p : Pose V D) (moves : List Move) :
    G.walk (φ.map t p) moves = φ.map t (F.walk p moves) := by
  induction moves generalizing p with
  | nil => rfl
  | cons m moves ih => rw [walk_cons, walk_cons, φ.act, ih]

theorem Rigid.map_bijective (φ : Rigid F G) (hlinear : Function.Bijective φ.linear)
    (hturn : Function.Bijective φ.turn) (t : V') : Function.Bijective (φ.map t) := by
  constructor
  · intro p q he
    simp only [Rigid.map, Pose.mk.injEq, add_left_inj] at he
    exact Pose.ext (hlinear.1 he.1) (hturn.1 he.2)
  · intro q
    obtain ⟨v, hv⟩ := hlinear.2 (q.place - t)
    obtain ⟨d, hd⟩ := hturn.2 q.heading
    refine ⟨⟨v, d⟩, ?_⟩
    rw [Rigid.map, hv, hd, sub_add_cancel]

variable {V'' D'' : Type*} [AddCommGroup V''] {H : Frame V'' D''}

def Rigid.refl (F : Frame V D) : Rigid F F where
  linear := .id V
  turn := id
  step := fun _ => rfl
  right := fun _ => rfl
  left := fun _ => rfl

def Rigid.comp (ψ : Rigid G H) (φ : Rigid F G) : Rigid F H where
  linear := ψ.linear.comp φ.linear
  turn := ψ.turn ∘ φ.turn
  step := by
    intro d
    rw [Function.comp_apply, ψ.step, φ.step]
    rfl
  right := by
    intro d
    rw [Function.comp_apply, ψ.right, φ.right]
    rfl
  left := by
    intro d
    rw [Function.comp_apply, ψ.left, φ.left]
    rfl

end Zappy.Turtle

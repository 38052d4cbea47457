import Mathlib.Data.List.Basic
import Mathlib.Logic.Relation

/-!
# First come, first served

A service for one customer: it is asked, it puts the question into a queue or loses it, it answers the question in
front of the queue, and it may give up the whole queue.  Whatever it does, the answers given and then the questions
that are queued come in the order in which they were asked, and no question is answered twice.
-/

namespace Zappy.Service

open Relation

/-- What a customer has asked, what is queued, and what was answered. -/
structure State (α : Type*) where
  asked : List α
  queue : List α
  answered : List α

variable {α : Type*} {s s' : State α}

/-- The steps of a service. -/
inductive Step : State α → State α → Prop
  | take (s : State α) (a : α) : Step s { s with asked := s.asked ++ [a], queue := s.queue ++ [a] }
  | lose (s : State α) (a : α) : Step s { s with asked := s.asked ++ [a] }
  | answer (s : State α) (a : α) (rest : List α) (h : s.queue = a :: rest) :
      Step s { s with queue := rest, answered := s.answered ++ [a] }
  | giveUp (s : State α) : Step s { s with queue := [] }

abbrev Steps : State α → State α → Prop := ReflTransGen Step

/-- Nothing is answered or queued but what was asked, in the order in which it was asked. -/
def InOrder (s : State α) : Prop := (s.answered ++ s.queue).Sublist s.asked

theorem Step.inOrder (h : Step s s') (hs : InOrder s) : InOrder s' := by
  unfold InOrder at *
  cases h with
  | take a =>
    dsimp only
    rw [← List.append_assoc]
    exact hs.append (.refl _)
  | lose a => exact hs.trans (List.sublist_append_left _ _)
  | answer a rest hqueue =>
    rw [hqueue] at hs
    simpa using hs
  | giveUp => exact ((List.Sublist.refl _).append (List.nil_sublist _)).trans hs

theorem Steps.inOrder (h : Steps s s') (hs : InOrder s) : InOrder s' := by
  induction h with
  | refl => exact hs
  | tail _ hstep ih => exact hstep.inOrder ih

/-- Questions that come in one after the other, of which some are taken. -/
theorem Steps.ask {asked queue answered new taken : List α} (h : taken.Sublist new) :
    Steps ⟨asked, queue, answered⟩ ⟨asked ++ new, queue ++ taken, answered⟩ := by
  induction h generalizing asked queue with
  | slnil => rw [List.append_nil, List.append_nil]
  | @cons l₁ l₂ a h ih =>
    have hrest : Steps ⟨asked ++ [a], queue, answered⟩ ⟨asked ++ [a] ++ l₂, queue ++ l₁, answered⟩ := ih
    rw [List.append_assoc] at hrest
    exact .head (.lose _ a) hrest
  | @cons_cons l₁ l₂ a h ih =>
    have hrest : Steps ⟨asked ++ [a], queue ++ [a], answered⟩ ⟨asked ++ [a] ++ l₂, queue ++ [a] ++ l₁, answered⟩ := ih
    rw [List.append_assoc, List.append_assoc] at hrest
    exact .head (.take _ a) hrest

/-- The questions in front of the queue, answered one after the other. -/
theorem Steps.answer {asked queue answered names rest : List α} (h : names ++ rest = queue) :
    Steps ⟨asked, queue, answered⟩ ⟨asked, rest, answered ++ names⟩ := by
  induction names generalizing queue answered with
  | nil =>
    subst h
    rw [List.append_nil, List.nil_append]
  | cons a names ih =>
    have hrest : Steps ⟨asked, names ++ rest, answered ++ [a]⟩ ⟨asked, rest, answered ++ [a] ++ names⟩ := ih rfl
    rw [List.append_assoc] at hrest
    exact .head (.answer _ a _ h.symm) hrest

end Zappy.Service

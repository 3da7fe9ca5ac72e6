import Mathlib.Logic.Relation

/-!
# Runs of a transition system

A system takes one move at a time.  `allowed` says which moves a run may take
in which state, so that a result about every run and a result about every run
that avoids some moves are instances of one definition.
-/

namespace MileExplorer

section Runs

variable {State Move : Type} (step : State → Move → Option State)
  (allowed : State → Move → Prop)

inductive Reaches (start : State) : State → Prop where
  | refl : Reaches start start
  | tail {current next : State} {move : Move} (before : Reaches start current)
      (permitted : allowed current move) (moved : step current move = some next) :
      Reaches start next

variable {step allowed}

/-- What holds at the start and is kept by every allowed move holds in every
state reached. -/
theorem Reaches.invariant {start state : State} (invariant : State → Prop)
    (initial : invariant start)
    (kept : ∀ current move next, invariant current → allowed current move →
      step current move = some next → invariant next)
    (reached : Reaches step allowed start state) : invariant state := by
  induction reached with
  | refl => exact initial
  | tail _ permitted moved ih => exact kept _ _ _ ih permitted moved

theorem Reaches.trans {first second third : State}
    (before : Reaches step allowed first second) (after : Reaches step allowed second third) :
    Reaches step allowed first third := by
  induction after with
  | refl => exact before
  | tail _ permitted moved ih => exact ih.tail permitted moved

theorem Reaches.mono {start state : State} {weaker : State → Move → Prop}
    (weaken : ∀ current move, allowed current move → weaker current move)
    (reached : Reaches step allowed start state) : Reaches step weaker start state := by
  induction reached with
  | refl => exact .refl
  | tail _ permitted moved ih => exact ih.tail (weaken _ _ permitted) moved

variable (step allowed) in
/-- Take a list of moves, failing at the first that is not allowed or not
possible. -/
def runMoves [∀ state move, Decidable (allowed state move)] : State → List Move → Option State
  | state, [] => some state
  | state, move :: moves =>
      if allowed state move then (step state move).bind fun next => runMoves next moves
      else none

theorem Reaches.of_runMoves [∀ state move, Decidable (allowed state move)]
    {start state : State} {moves : List Move}
    (finished : runMoves step allowed start moves = some state) :
    Reaches step allowed start state := by
  induction moves generalizing start with
  | nil =>
      obtain rfl : start = state := by simpa [runMoves] using finished
      exact .refl
  | cons move moves ih =>
      by_cases permitted : allowed start move
      · simp only [runMoves, permitted, if_true] at finished
        obtain ⟨next, moved, rest⟩ := Option.bind_eq_some_iff.mp finished
        exact (Reaches.refl.tail permitted moved).trans (ih rest)
      · simp [runMoves, permitted] at finished

variable (step allowed) in
/-- A list of moves is evaluated to show that some state with a property is
reached. -/
theorem Reaches.exists_of_runMoves [∀ state move, Decidable (allowed state move)]
    (start : State) (moves : List Move) (property : State → Prop) [DecidablePred property]
    (found : (runMoves step allowed start moves).any (fun state => decide (property state)) =
      true) :
    ∃ state, Reaches step allowed start state ∧ property state := by
  obtain ⟨state, finished, holds⟩ := (Option.any_eq_true _ _).mp found
  exact ⟨state, .of_runMoves finished, of_decide_eq_true holds⟩

end Runs

end MileExplorer

/-
This file is the transition-system library: labelled systems, the runs they take
and the invariant rule over their reachable states.

A run records every move with the state before it and the state after it, so a
property of a whole history (how often something happened, by whom) is a property
of the list of moves. Runs grow at their end: an induction over a run adds one
move to a history whose last state is the state the move starts from.
-/

import Mathlib

namespace Mmurtl.Transition

open List

theorem filterMap_concat {α β : Type} (read : α → Option β) (items : List α) (last : α) :
    (items ++ [last]).filterMap read = items.filterMap read ++ (read last).toList := by
  rw [filterMap_append]
  cases given : read last <;> simp [given]

/-- A labelled transition system: where it starts and what one move can do. -/
structure LabelledSystem (State Label : Type) where
  init : State → Prop
  step : State → Label → State → Prop

/-- One move of a run. -/
structure Move (State Label : Type) where
  before : State
  label : Label
  after : State

variable {State Label : Type} {system : LabelledSystem State Label}

/-- The moves that lead from one state to another, in order. -/
inductive Run (system : LabelledSystem State Label) :
    State → List (Move State Label) → State → Prop where
  | nil (start : State) : Run system start [] start
  | snoc {start last next : State} {moves : List (Move State Label)} {label : Label}
      (run : Run system start moves last) (step : system.step last label next) :
      Run system start (moves ++ [⟨last, label, next⟩]) next

/-- The states some run from an initial state ends in. -/
inductive Reachable (system : LabelledSystem State Label) : State → Prop where
  | init {start : State} (initial : system.init start) : Reachable system start
  | step {last next : State} (reachable : Reachable system last) (label : Label)
      (step : system.step last label next) : Reachable system next

/-- What holds initially and is kept by every move from a reachable state holds of every
reachable state. -/
theorem Reachable.invariant (property : State → Prop)
    (base : ∀ start, system.init start → property start)
    (preserved : ∀ last label next, Reachable system last → property last →
      system.step last label next → property next)
    {state : State} (reachable : Reachable system state) : property state := by
  induction reachable with
  | init initial => exact base _ initial
  | step reachable label step ih =>
    exact preserved _ _ _ reachable ih step

variable {moves : List (Move State Label)} {start last : State}

/-- A move and a run from where it leads are a run. -/
theorem Run.cons {middle : State} {label : Label} (step : system.step start label middle)
    (run : Run system middle moves last) :
    Run system start (⟨start, label, middle⟩ :: moves) last := by
  induction run with
  | nil => exact .snoc (.nil start) step
  | snoc _ later ih => exact .snoc ih later

variable {move : Move State Label}

/-- A run up to one of its moves, and the move. -/
theorem Run.split {earlier later : List (Move State Label)}
    (run : Run system start (earlier ++ move :: later) last) :
    Run system start earlier move.before ∧ system.step move.before move.label move.after := by
  generalize whole : earlier ++ move :: later = moves at run
  induction run generalizing later with
  | nil => cases earlier <;> cases whole
  | @snoc middle next before label run step ih =>
    rcases eq_nil_or_concat later with rfl | ⟨_, _, rfl⟩
    · obtain ⟨rfl, same⟩ := append_inj' whole rfl
      cases same
      exact ⟨run, step⟩
    · rw [concat_eq_append, ← cons_append, ← append_assoc] at whole
      exact ih (append_inj' whole rfl).1

/-- A run from a reachable state ends in a reachable state. -/
theorem Reachable.run (reachable : Reachable system start) (run : Run system start moves last) :
    Reachable system last := by
  induction run with
  | nil => exact reachable
  | snoc run step ih => exact .step ih _ step

/-- Every move of a run from a reachable state starts in a reachable state and is a move of
the system. -/
theorem Run.move_of_mem (reachable : Reachable system start) (run : Run system start moves last)
    (member : move ∈ moves) :
    Reachable system move.before ∧ system.step move.before move.label move.after := by
  induction run with
  | nil => cases member
  | snoc run step ih =>
    rcases mem_append.mp member with earlier | latest
    · exact ih earlier
    · rw [mem_singleton] at latest
      subst latest
      exact ⟨reachable.run run, step⟩

end Mmurtl.Transition

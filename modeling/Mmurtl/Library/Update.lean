/-
This file defines the change of a function at several points, one after another, and says where
an element of a list comes from of which one place was changed or added.
-/

import Mathlib

namespace Mmurtl

open List

section Lists

variable {α : Type} {items : List α} {put item : α} {index i : Nat}

theorem set_cases (here : (items.set index put)[i]? = some item) :
    (i = index ∧ item = put) ∨ (i ≠ index ∧ items[i]? = some item) := by
  by_cases same : index = i
  · subst same
    have bound := (List.getElem?_eq_some_iff.mp here).1
    rw [length_set] at bound
    rw [getElem?_set_self bound] at here
    exact Or.inl ⟨rfl, (Option.some.inj here).symm⟩
  · rw [getElem?_set_ne same] at here
    exact Or.inr ⟨Ne.symm same, here⟩

theorem concat_cases (here : (items ++ [put])[i]? = some item) :
    items[i]? = some item ∨ (i = items.length ∧ item = put) := by
  by_cases less : i < items.length
  · rw [getElem?_append_left less] at here
    exact Or.inl here
  · have short := (List.getElem?_eq_some_iff.mp here).1
    rw [length_append, length_singleton] at short
    obtain rfl : i = items.length := by omega
    rw [getElem?_concat_length] at here
    exact Or.inr ⟨rfl, (Option.some.inj here).symm⟩

theorem places_ne {other : α} (here : items[index]? = some item)
    (there : items[i]? = some other) (different : item ≠ other) : index ≠ i := by
  rintro rfl
  exact different (Option.some.inj (here.symm.trans there))

end Lists

variable {α β : Type} [DecidableEq α]

/-- A function changed at several points, later changes last. -/
def updateAll (function : α → β) (changes : List (α × β)) : α → β :=
  changes.foldl (fun function change => Function.update function change.1 change.2) function

theorem updateAll_cons (function : α → β) (change : α × β) (rest : List (α × β)) :
    updateAll function (change :: rest) =
      updateAll (Function.update function change.1 change.2) rest := rfl

theorem updateAll_append (function : α → β) (first second : List (α × β)) :
    updateAll function (first ++ second) = updateAll (updateAll function first) second :=
  foldl_append

variable {function : α → β} {changes : List (α × β)} {point : α}

theorem updateAll_of_notMem (away : point ∉ changes.map Prod.fst) :
    updateAll function changes point = function point := by
  induction changes generalizing function with
  | nil => rfl
  | cons change rest ih =>
    rw [map_cons, mem_cons, not_or] at away
    rw [updateAll_cons, ih away.2, Function.update_of_ne away.1]

/-- If all changes at a point give the same value, and there is one, the point has it. -/
theorem updateAll_of_forall {value : β}
    (all : ∀ change ∈ changes, change.1 = point → change.2 = value)
    (some_ : point ∈ changes.map Prod.fst) : updateAll function changes point = value := by
  induction changes generalizing function with
  | nil => cases some_
  | cons change rest ih =>
    rw [updateAll_cons]
    by_cases later : point ∈ rest.map Prod.fst
    · exact ih (forall_mem_cons.mp all).2 later
    · rw [updateAll_of_notMem later]
      rcases mem_cons.mp some_ with here | member
      · rw [here, Function.update_self]
        exact all change mem_cons_self here.symm
      · exact absurd member later

theorem updateAll_of_mem (distinct : (changes.map Prod.fst).Nodup) {change : α × β}
    (member : change ∈ changes) : updateAll function changes change.1 = change.2 := by
  refine updateAll_of_forall (fun other found same => ?_) (mem_map_of_mem member)
  rw [inj_on_of_nodup_map distinct found member same]

end Mmurtl

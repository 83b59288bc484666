/-
This file is the library of threaded lists: lists an array of successors holds, each
element naming the next one. Following the successors some number of times from a first
element gives the list and the element after it. Changing the successor of one element
leaves a list without that element alone, and moves the end of a list that ends with it.
-/

import Mathlib

namespace Mmurtl

open Function

section Threads

variable {α : Type} {next : α → α} {first point : α} {count : Nat}

theorem mem_iterate_of_lt {steps : Nat} (before : steps < count) :
    next^[steps] first ∈ List.iterate next first count :=
  List.mem_iterate.mpr ⟨steps, before, rfl⟩

/-- Following the successors past the last one takes one more step. -/
theorem iterate_concat (next : α → α) (first : α) (count : Nat) :
    List.iterate next first (count + 1) = List.iterate next first count ++
      [next^[count] first] := by
  rw [List.iterate_add]
  rfl

/-- The last element of a list without repetition is not among those before it. -/
theorem last_notMem_of_nodup (distinct : (List.iterate next first (count + 1)).Nodup) :
    next^[count] first ∉ List.iterate next first count := by
  rw [iterate_concat] at distinct
  exact fun member => (List.disjoint_of_nodup_append distinct) member (List.mem_singleton_self _)

variable [DecidableEq α]

/-- A list that does not contain the changed element is followed as before. -/
theorem iterate_update_of_notMem (target : α) (away : point ∉ List.iterate next first count) :
    List.iterate (Function.update next point target) first count = List.iterate next first count ∧
      (Function.update next point target)^[count] first = next^[count] first := by
  induction count generalizing first with
  | zero => exact ⟨rfl, rfl⟩
  | succ count ih =>
    rw [List.iterate, List.mem_cons, not_or] at away
    have step : Function.update next point target first = next first :=
      update_of_ne (Ne.symm away.1) _ _
    obtain ⟨elements, last⟩ := ih away.2
    rw [List.iterate, List.iterate, iterate_succ_apply, iterate_succ_apply, step, elements, last]
    exact ⟨rfl, rfl⟩

/-- A list that ends with the changed element keeps its elements, and what comes after it is
the new successor. -/
theorem iterate_update_last (target : α)
    (away : next^[count] first ∉ List.iterate next first count) :
    List.iterate (Function.update next (next^[count] first) target) first (count + 1) =
        List.iterate next first (count + 1) ∧
      (Function.update next (next^[count] first) target)^[count + 1] first = target := by
  obtain ⟨elements, last⟩ := iterate_update_of_notMem target away
  rw [iterate_concat, iterate_concat, iterate_succ_apply', elements, last]
  exact ⟨rfl, update_self ..⟩

/-- Following the successors from a first element gives a list and then an end. -/
def Threaded (next : α → α) (stop : α) : α → List α → Prop
  | first, [] => first = stop
  | first, element :: rest => first = element ∧ Threaded next stop (next element) rest

omit [DecidableEq α] in
theorem Threaded.congr {other : α → α} {stop : α} {elements : List α}
    (threaded : Threaded next stop first elements)
    (same : ∀ element ∈ elements, other element = next element) :
    Threaded other stop first elements := by
  induction elements generalizing first with
  | nil => exact threaded
  | cons element rest ih =>
    obtain ⟨rfl, later⟩ := threaded
    refine ⟨rfl, ?_⟩
    rw [same first List.mem_cons_self]
    exact ih later (List.forall_mem_cons.mp same).2

end Threads

end Mmurtl

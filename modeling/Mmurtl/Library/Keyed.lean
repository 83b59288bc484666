/-
This file is about lists that are sorted by a key of their elements, each key being used once.
Such a list is determined by its elements, so that it is enough to know which elements were
added to a list or taken out of it.
-/

import Mathlib

namespace Mmurtl

open List

/-- The keys of the elements increase. -/
def Keyed {α : Type} (key : α → Nat) (items : List α) : Prop :=
  items.Pairwise fun first second => key first < key second

/-- A list is another one with one element added somewhere. -/
def Adds {α : Type} (new : α) (before after : List α) : Prop :=
  ∃ left right, before = left ++ right ∧ after = left ++ new :: right

/-- A list that has one more element has one such element. -/
theorem Adds.unique {α : Type} [DecidableEq α] {new other : α} {before after : List α}
    (adds : Adds new before after) (otherAdds : Adds other before after) : new = other := by
  have counts : ∀ {item : α}, Adds item before after →
      ∀ element, after.count element = before.count element + if item = element then 1 else 0 := by
    rintro _ ⟨left, right, rfl, rfl⟩ _
    rw [count_append, count_append, count_cons, Nat.add_assoc]
    simp only [beq_iff_eq]
  by_contra different
  have left := counts adds new
  have right := counts otherAdds new
  rw [if_pos rfl] at left
  rw [if_neg fun same => different same.symm] at right
  omega

namespace Keyed

variable {α : Type} {key : α → Nat} {items other : List α}

section

variable (keyed : Keyed key items)
include keyed

theorem nodup : items.Nodup := by
  refine List.Pairwise.imp (fun {first second} less same => ?_) keyed
  rw [same] at less
  exact Nat.lt_irrefl _ less

theorem sublist (part : other.Sublist items) : Keyed key other :=
  List.Pairwise.sublist part keyed

/-- A list is determined by its elements. -/
theorem eq_of_mem_iff (otherKeyed : Keyed key other) (same : ∀ item, item ∈ items ↔ item ∈ other) :
    items = other :=
  haveI : Std.Irrefl fun first second : α => key first < key second :=
    ⟨fun _ => Nat.lt_irrefl _⟩
  haveI : Std.Antisymm fun first second : α => key first < key second :=
    ⟨fun _ _ less greater => absurd less (Nat.lt_asymm greater)⟩
  List.Pairwise.eq_of_mem_iff keyed otherKeyed same

theorem erase_eq [DecidableEq α] (otherKeyed : Keyed key other) {gone : α}
    (same : ∀ item, item ∈ other ↔ item ∈ items ∧ item ≠ gone) : other = items.erase gone := by
  refine otherKeyed.eq_of_mem_iff (keyed.sublist erase_sublist) fun item => ?_
  rw [keyed.nodup.mem_erase_iff, same]
  exact and_comm

theorem adds (otherKeyed : Keyed key other) {new : α} (fresh : new ∉ items)
    (same : ∀ item, item ∈ other ↔ item ∈ items ∨ item = new) : Adds new items other := by
  obtain ⟨left, right, rfl⟩ := append_of_mem ((same new).mpr (Or.inr rfl))
  refine ⟨left, right, ?_, rfl⟩
  have once := (nodup_middle.mp otherKeyed.nodup)
  refine keyed.eq_of_mem_iff (otherKeyed.sublist
    ((List.Sublist.refl left).append (sublist_cons_self new right))) fun item => ?_
  have member : item ∈ left ++ new :: right ↔ item = new ∨ item ∈ left ++ right := by
    rw [mem_append, mem_append, mem_cons]
    exact or_left_comm
  constructor
  · intro inside
    rcases member.mp ((same item).mpr (Or.inl inside)) with rfl | rest
    · exact absurd inside fresh
    · exact rest
  · intro inside
    rcases (same item).mp (member.mpr (Or.inr inside)) with before | rfl
    · exact before
    · exact absurd inside (nodup_cons.mp once).1

end

end Keyed

end Mmurtl

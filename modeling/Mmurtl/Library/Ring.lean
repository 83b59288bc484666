/-
This file is the ring-buffer library: a fixed number of slots, the place the next value
goes to, the place of the oldest value and how many values there are. A ring carries its
own well-formedness, so neither operation can leave the slots. What a ring holds is a
list: pushing adds at its end and popping takes its head.
-/

import Mathlib

namespace Mmurtl

/-- Values in a circle of slots, oldest first from `tail`. -/
structure Ring (α : Type) (capacity : Nat) where
  slots : Vector α capacity
  head : Fin capacity
  tail : Fin capacity
  len : Nat
  bounded : len ≤ capacity
  follows : head.val = (tail.val + len) % capacity

namespace Ring

variable {α : Type} {capacity : Nat}

/-! ### Operations -/

/-- The slot after a slot. -/
def next (place : Fin capacity) : Fin capacity :=
  ⟨(place.val + 1) % capacity, Nat.mod_lt _ place.pos⟩

/-- A ring that holds nothing, over given slots. -/
def reset (slots : Vector α capacity) (positive : 0 < capacity) : Ring α capacity where
  slots := slots
  head := ⟨0, positive⟩
  tail := ⟨0, positive⟩
  len := 0
  bounded := Nat.zero_le _
  follows := (Nat.zero_mod _).symm

/-- Add a value to a ring with room for it. -/
def push (ring : Ring α capacity) (value : α) (room : ring.len < capacity) :
    Ring α capacity where
  slots := ring.slots.set ring.head value
  head := next ring.head
  tail := ring.tail
  len := ring.len + 1
  bounded := room
  follows := by
    show (ring.head.val + 1) % capacity = _
    rw [ring.follows, Nat.mod_add_mod, Nat.add_assoc]

/-- Take the oldest value of a ring that holds one. -/
def pop (ring : Ring α capacity) (holds : 0 < ring.len) : α × Ring α capacity :=
  (ring.slots.get ring.tail, {
    slots := ring.slots
    head := ring.head
    tail := next ring.tail
    len := ring.len - 1
    bounded := (Nat.sub_le _ _).trans ring.bounded
    follows := by
      show _ = ((ring.tail.val + 1) % capacity + (ring.len - 1)) % capacity
      rw [ring.follows, Nat.mod_add_mod, Nat.add_assoc, Nat.add_sub_cancel' holds] })

/-! ### What a ring holds -/

/-- The slot some places after the oldest value. -/
def place (ring : Ring α capacity) (offset : Nat) : Fin capacity :=
  ⟨(ring.tail.val + offset) % capacity, Nat.mod_lt _ ring.tail.pos⟩

/-- The values a ring holds, oldest first. -/
def contents (ring : Ring α capacity) : List α :=
  (List.range ring.len).map fun offset => ring.slots.get (ring.place offset)

section

variable (ring : Ring α capacity)
include ring

theorem place_len : ring.place ring.len = ring.head :=
  Fin.ext ring.follows.symm

theorem place_zero : ring.place 0 = ring.tail :=
  Fin.ext (Nat.mod_eq_of_lt ring.tail.isLt)

/-- The slots in use are all different from the next slot of a ring with room. -/
theorem place_ne_head {offset : Nat} (inside : offset < ring.len) (room : ring.len < capacity) :
    ring.place offset ≠ ring.head := by
  rw [← ring.place_len]
  intro same
  have congruent : offset ≡ ring.len [MOD capacity] :=
    Nat.ModEq.add_left_cancel' ring.tail.val (congrArg Fin.val same)
  have equal := congruent.eq_of_lt_of_lt (inside.trans room) room
  exact absurd equal inside.ne

theorem contents_length : ring.contents.length = ring.len := by
  simp [contents]

/-- Pushing adds a value at the end. -/
theorem contents_push (value : α) (room : ring.len < capacity) :
    (ring.push value room).contents = ring.contents ++ [value] := by
  have written : (ring.slots.set ring.head value).get ring.head = value :=
    Vector.getElem_set_self _
  have kept : ∀ offset, offset < ring.len →
      (ring.slots.set ring.head value).get (ring.place offset) =
        ring.slots.get (ring.place offset) := by
    intro offset inside
    have apart := ring.place_ne_head inside room
    exact Vector.getElem_set_ne _ _ (fun same => apart (Fin.ext same.symm))
  show (List.range (ring.len + 1)).map
    (fun offset => (ring.slots.set ring.head value).get (ring.place offset)) = _
  rw [List.range_succ, List.map_append, List.map_singleton, ring.place_len, written]
  congr 1
  exact List.map_congr_left fun offset inside => kept offset (List.mem_range.mp inside)

/-- Popping takes the oldest value. -/
theorem contents_pop (holds : 0 < ring.len) :
    ring.contents = (ring.pop holds).1 :: (ring.pop holds).2.contents := by
  obtain ⟨count, total⟩ : ∃ count, ring.len = count + 1 := ⟨ring.len - 1, by omega⟩
  have shifted : ∀ offset, ring.place (offset + 1) = (ring.pop holds).2.place offset := by
    intro offset
    apply Fin.ext
    show (ring.tail.val + (offset + 1)) % capacity =
      ((ring.tail.val + 1) % capacity + offset) % capacity
    rw [Nat.mod_add_mod, Nat.add_assoc, Nat.add_comm 1]
  show _ = ring.slots.get ring.tail :: (List.range (ring.len - 1)).map
    (fun offset => ring.slots.get ((ring.pop holds).2.place offset))
  rw [contents, total, List.range_succ_eq_map, List.map_cons, ring.place_zero, List.map_map]
  congr 1
  exact List.map_congr_left fun offset _ => congrArg ring.slots.get (shifted offset)

end

end Ring

end Mmurtl

/-
This file proves that the stack an interrupt frame lies on is found. An address has a stack
bottom exactly if it is on a stack that was allocated, wherever the first stack was placed.
-/

import Mmurtl.Memory.StackRuns

namespace Mmurtl.Stacks

open Frames User Transition

/-- The bottom of the stack a frame lies on. A sum that overflows is a panic. -/
def bottom (frame : UInt64) (first next : Nat) : Outcome Empty (Option Nat) := do
  let low ← Outcome.word 64 (first + page)
  if frame.toNat < low ∨ next ≤ frame.toNat ∨ limit < next then pure none
  else do
    let bottom ← Outcome.word 64 ((frame &&& ~~~(UInt64.ofNat stride - 1)).toNat + page)
    if frame.toNat < bottom then pure none
    else do
      let top ← Outcome.word 64 (bottom + stackSize)
      pure (if frame.toNat < top then some bottom else none)

/-! ### The slot of an address -/

theorem and_stride (frame : UInt64) :
    (frame &&& ~~~(UInt64.ofNat stride - 1)).toNat = 2 ^ 16 * (frame.toNat / 2 ^ 16) := by
  rw [UInt64.toNat_and, show (~~~(UInt64.ofNat stride - 1)).toNat = 2 ^ 16 * (2 ^ 48 - 1) by decide]
  refine Nat.eq_of_testBit_eq fun bit => ?_
  rw [Nat.testBit_and, Nat.testBit_two_pow_mul, Nat.testBit_two_pow_sub_one,
    Nat.testBit_two_pow_mul, Nat.testBit_div_two_pow]
  by_cases low : 16 ≤ bit
  · rw [Nat.sub_add_cancel low]
    by_cases high : bit < 64
    · simp [low, show bit - 16 < 48 by omega]
    · have wide : 2 ^ 64 ≤ 2 ^ bit := Nat.pow_le_pow_right (by decide) (Nat.le_of_not_lt high)
      simp [Nat.testBit_lt_two_pow (Nat.lt_of_lt_of_le frame.toNat_lt wide)]
  · simp [low]

/-- The bottom is found for the addresses on the stacks of the slots in use, and no sum
overflows. -/
theorem bottom_slots (frame : UInt64) {first count : Nat} (aligned : stride ∣ first)
    (room : first + count * stride ≤ limit) :
    ∃ found, bottom frame first (first + count * stride) = .ok found ∧ ∀ virt, found = some virt ↔
      ∃ i < count, virt = first + i * stride + page ∧
        virt ≤ frame.toNat ∧ frame.toNat < virt + stackSize := by
  obtain ⟨slot, rfl⟩ := aligned
  unfold bottom
  rw [Outcome.word_bind (by unfold limit base at room; unfold page; omega), and_stride]
  unfold page stackSize stride at *
  split_ifs with outside
  · refine ⟨none, rfl, fun virt => ⟨nofun, ?_⟩⟩
    rintro ⟨i, few, rfl, low, high⟩
    omega
  · have inside : frame.toNat < limit := by omega
    unfold limit base at inside
    rw [Outcome.word_bind (by omega)]
    split_ifs with guard
    · refine ⟨none, rfl, fun virt => ⟨nofun, ?_⟩⟩
      rintro ⟨i, few, rfl, low, high⟩
      omega
    · rw [Outcome.word_bind (by omega)]
      refine ⟨_, rfl, fun virt => ?_⟩
      split_ifs with high
      · refine ⟨fun same => ⟨frame.toNat / 2 ^ 16 - slot, ?_⟩, ?_⟩
        · cases same
          omega
        · rintro ⟨i, few, rfl, low, high⟩
          rw [Option.some_inj]
          omega
      · refine ⟨nofun, ?_⟩
        rintro ⟨i, few, rfl, low, high⟩
        omega

/-! ### Runs -/

variable {arch : Arch} {root draw : Nat} {before first : Region} {last : Kernel}
  {moves : List (Move Kernel Event)}

/-- After any number of allocations, the bottom of the stack a frame lies on is found. For every
other address none is found, and no sum overflows. -/
theorem bottom_exact (setUp : init arch root draw before = (.ok (), first))
    (run : Run (kernel arch root) ⟨first, []⟩ moves last) (frame : UInt64) :
    ∃ found, bottom frame (firstSlot draw) last.region.next = .ok found ∧
      ∀ virt, found = some virt ↔ ∃ stack ∈ allocated moves, virt = stack.virt ∧
        stack.virt ≤ frame.toNat ∧ frame.toNat < stack.virt + stackSize := by
  have placed : first.next = firstSlot draw := next_of_init setUp
  have low : firstSlot draw ≤ limit := by
    have few : draw &&& 0x1fffff ≤ 0x1fffff := Nat.and_le_right
    unfold firstSlot limit stride
    omega
  obtain ⟨fits, next, virts⟩ := allocated_slots run
  have room := fits (placed.trans_le low)
  rw [next, placed] at room ⊢
  have aligned : stride ∣ firstSlot draw := Nat.dvd_add (by decide) (Nat.dvd_mul_left _ _)
  obtain ⟨found, runs, finds⟩ := bottom_slots frame aligned room
  refine ⟨found, runs, fun virt => (finds virt).trans ⟨?_, ?_⟩⟩
  · rintro ⟨i, few, rfl, inside⟩
    have listed : firstSlot draw + i * stride + page ∈ (allocated moves).map KernelStack.virt := by
      rw [virts, placed]
      exact List.mem_map_of_mem (List.mem_range.mpr few)
    obtain ⟨stack, known, same⟩ := List.mem_map.mp listed
    rw [← same] at inside ⊢
    exact ⟨stack, known, rfl, inside⟩
  · rintro ⟨stack, known, rfl, inside⟩
    have listed := List.mem_map_of_mem (f := KernelStack.virt) known
    rw [virts, placed] at listed
    obtain ⟨i, few, same⟩ := List.mem_map.mp listed
    exact ⟨i, List.mem_range.mp few, same.symm, inside⟩

theorem bottom_smallStack : ∃ found,
    bottom (UInt64.ofNat smallStack.virt + 40) (firstSlot 31) (smallSecond arm64).next = .ok found ∧
      ∀ virt, found = some virt ↔ ∃ stack ∈ allocated [smallAllocation arm64], virt = stack.virt ∧
        stack.virt ≤ (UInt64.ofNat smallStack.virt + 40).toNat ∧
        (UInt64.ofNat smallStack.virt + 40).toNat < stack.virt + stackSize :=
  bottom_exact (Program.run_of_fst (by decide +kernel : (init arm64 14 31 smallRegion).1 = .ok ()))
    (run_smallAllocation (by decide +kernel)) _

end Mmurtl.Stacks

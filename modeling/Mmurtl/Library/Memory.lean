/-
This file is the library of byte-addressed memory: words of eight bytes in it, and ranges
that are zero. A word that was written is read back, and a write changes nothing outside
its eight bytes.
-/

import Mathlib

namespace Mmurtl

/-- A memory: the byte at each address. -/
abbrev Memory := Nat → UInt8

namespace Memory

/-- The number some bytes hold, the lowest byte first. -/
def readBytes (memory : Memory) (address : Nat) : Nat → Nat
  | 0 => 0
  | count + 1 => (memory address).toNat + 256 * readBytes memory (address + 1) count

/-- The word at an address. -/
def readWord (memory : Memory) (address : Nat) : Nat := memory.readBytes address 8

/-- Store a word at an address. -/
def writeWord (memory : Memory) (address value : Nat) : Memory := fun byte =>
  if address ≤ byte ∧ byte < address + 8 then UInt8.ofNat (value / 256 ^ (byte - address))
  else memory byte

/-- Store some bytes, from an address on. -/
def writeBytes (memory : Memory) (address : Nat) (data : List UInt8) : Memory := fun byte =>
  if address ≤ byte then data[byte - address]?.getD (memory byte) else memory byte

/-- Clear some words, from an address on. -/
def clear (memory : Memory) (start : Nat) : Nat → Memory
  | 0 => memory
  | count + 1 => (clear memory start count).writeWord (start + 8 * count) 0

/-- A range of addresses is zero. -/
def ZeroOn (memory : Memory) (start count : Nat) : Prop :=
  ∀ address, start ≤ address → address < start + count → memory address = 0

/-- Two memories agree on a range of addresses. -/
def AgreeOn (memory other : Memory) (start count : Nat) : Prop :=
  ∀ address, start ≤ address → address < start + count → other address = memory address

variable {memory other : Memory} {address value start count : Nat}

theorem readBytes_eq (bytes : ∀ offset, offset < count →
      memory (address + offset) = UInt8.ofNat (value / 256 ^ offset)) :
    memory.readBytes address count = value % 256 ^ count := by
  induction count generalizing address value with
  | zero => rw [Nat.pow_zero, Nat.mod_one, readBytes]
  | succ count ih =>
    have first : (memory address).toNat = value % 256 := by
      have here := bytes 0 (Nat.succ_pos count)
      rw [Nat.add_zero, Nat.pow_zero, Nat.div_one] at here
      rw [here]
      simp
    have rest : memory.readBytes (address + 1) count = value / 256 % 256 ^ count := by
      refine ih fun offset inside => ?_
      rw [Nat.add_assoc, bytes (1 + offset) (by omega), Nat.div_div_eq_div_mul,
        Nat.add_comm 1 offset, Nat.pow_succ, Nat.mul_comm 256]
    rw [readBytes, first, rest, Nat.pow_succ, Nat.mul_comm (256 ^ count), Nat.mod_mul]

theorem readBytes_congr (agree : memory.AgreeOn other address count) :
    other.readBytes address count = memory.readBytes address count := by
  induction count generalizing address with
  | zero => rfl
  | succ count ih =>
    have first := agree address (Nat.le_refl _) (by omega)
    have rest : memory.AgreeOn other (address + 1) count :=
      fun byte low high => agree byte (by omega) (by omega)
    rw [readBytes, readBytes, first, ih rest]

theorem readWord_congr (agree : memory.AgreeOn other address 8) :
    other.readWord address = memory.readWord address :=
  readBytes_congr agree

theorem ZeroOn.readWord (zero : memory.ZeroOn address 8) : memory.readWord address = 0 := by
  have bytes : ∀ offset, offset < 8 → memory (address + offset) =
      UInt8.ofNat (0 / 256 ^ offset) := by
    intro offset _
    rw [zero (address + offset) (by omega) (by omega), Nat.zero_div]
    rfl
  rw [Memory.readWord, readBytes_eq bytes, Nat.zero_mod]

/-- A word that was written is read back. -/
theorem readWord_writeWord (memory : Memory) (address : Nat) (fits : value < 2 ^ 64) :
    (memory.writeWord address value).readWord address = value := by
  have bytes : ∀ offset, offset < 8 → memory.writeWord address value (address + offset) =
      UInt8.ofNat (value / 256 ^ offset) := by
    intro _ _
    rw [writeWord, if_pos (by omega), Nat.add_sub_cancel_left]
  rw [readWord, readBytes_eq bytes]
  exact Nat.mod_eq_of_lt fits

variable {byte : Nat}

theorem writeWord_of_outside (memory : Memory) (value : Nat)
    (outside : byte < address ∨ address + 8 ≤ byte) :
    memory.writeWord address value byte = memory byte :=
  if_neg (by omega)

theorem writeWord_zero_of_inside (memory : Memory) (low : address ≤ byte)
    (high : byte < address + 8) : memory.writeWord address 0 byte = 0 := by
  rw [writeWord, if_pos ⟨low, high⟩, Nat.zero_div]
  rfl

theorem writeBytes_of_outside (memory : Memory) {data : List UInt8}
    (outside : byte < address ∨ address + data.length ≤ byte) :
    memory.writeBytes address data byte = memory byte := by
  unfold writeBytes
  split
  case isFalse => rfl
  case isTrue low => rw [List.getElem?_eq_none (by omega), Option.getD_none]

theorem ZeroOn.congr (zero : memory.ZeroOn start count) (agree : memory.AgreeOn other start count) :
    other.ZeroOn start count :=
  fun byte low high => (agree byte low high).trans (zero byte low high)

/-- Clearing the first word of a range whose rest is zero. -/
theorem ZeroOn.clear (zero : memory.ZeroOn (start + 8) count) :
    (memory.writeWord start 0).ZeroOn start (8 + count) := by
  intro byte low _
  by_cases first : byte < start + 8
  · exact writeWord_zero_of_inside memory low first
  · rw [writeWord_of_outside memory 0 (by omega)]
    exact zero byte (by omega) (by omega)

theorem clear_of_outside (memory : Memory) (outside : byte < start ∨ start + 8 * count ≤ byte) :
    memory.clear start count byte = memory byte := by
  induction count with
  | zero => rfl
  | succ count ih =>
    rw [clear, writeWord_of_outside _ 0 (by omega)]
    exact ih (by omega)

theorem zeroOn_clear (memory : Memory) (start count : Nat) :
    (memory.clear start count).ZeroOn start (8 * count) := by
  induction count with
  | zero => exact fun byte low high => by omega
  | succ count ih =>
    intro byte low _
    by_cases last : start + 8 * count ≤ byte
    · exact writeWord_zero_of_inside _ last (by omega)
    · rw [clear, writeWord_of_outside _ 0 (by omega)]
      exact ih byte low (by omega)

end Memory

end Mmurtl

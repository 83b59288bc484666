/-
This file proves what changing an entry of the allocation table does to the other
entries, also when only some of the changed bytes have reached the device.

A FAT12 entry shares a byte with its neighbour, so the argument is about the part of
each byte that belongs to an entry: every byte of a table that is partly old and
partly new has the part of another entry from the old table.
-/

import Mmurtl.Fat.Driver

namespace Mmurtl.Fat

open Bytes

variable {index other : Nat} {mixed : List UInt8}

/-! ### Entries -/

/-- One more than the largest value of an entry. -/
def Kind.modulus : Kind → Nat
  | .fat12 => 4096
  | .fat16 => 65536
  | .fat32 => 268435456

namespace Kind

variable (kind : Kind)

theorem length_entryBytes (fat : List UInt8) (cluster value : Nat) :
    (kind.entryBytes fat cluster value).length = kind.entrySize := by
  cases kind with
  | fat12 =>
    simp only [entryBytes]
    split <;> rfl
  | fat16 => rfl
  | fat32 => rfl

variable {kind} {fat : List UInt8} {cluster : Nat}

section

variable (fits : kind.entryOffset cluster + kind.entrySize ≤ fat.length) (value : Nat)
include fits value

theorem length_setEntry : (kind.setEntry fat cluster value).length = fat.length :=
  length_patch (by rw [length_entryBytes]; exact fits)

section

variable
  (outside : index < kind.entryOffset cluster ∨ kind.entryOffset cluster + kind.entrySize ≤ index)
include outside

/-- A byte outside an entry is not changed with it. -/
theorem byteAt_setEntry_of_outside :
    byteAt (kind.setEntry fat cluster value) index = byteAt fat index :=
  byteAt_patch_outside (by rw [length_entryBytes]; exact fits)
    (by rw [length_entryBytes]; exact outside)

theorem getElem?_setEntry_of_outside : (kind.setEntry fat cluster value)[index]? = fat[index]? := by
  have inside : kind.entryOffset cluster + (kind.entryBytes fat cluster value).length ≤
      fat.length := by
    rw [length_entryBytes]
    exact fits
  rcases outside with before | after
  · exact getElem?_patch_of_lt inside before
  · exact getElem?_patch_of_ge inside (by rw [length_entryBytes]; exact after)

end

end

/-- The word a FAT12 entry is part of, after the entry is changed. -/
theorem word_setEntry_fat12 (fits : cluster + cluster / 2 + 2 ≤ fat.length) (value : Nat) :
    u16le (Kind.fat12.setEntry fat cluster value) (cluster + cluster / 2) =
      if cluster % 2 = 0 then u16le fat (cluster + cluster / 2) / 4096 * 4096 + value % 4096
      else u16le fat (cluster + cluster / 2) % 16 + value % 4096 * 16 := by
  have bound := u16le_lt fat (cluster + cluster / 2)
  simp only [setEntry, entryOffset, entryBytes]
  by_cases even : cluster % 2 = 0
  · rw [if_pos even, if_pos even, u16le_patch_le16 fits]
    omega
  · rw [if_neg even, if_neg even, u16le_patch_le16 fits]
    omega

/-- The word of a FAT32 entry after the entry is changed. -/
theorem word_setEntry_fat32 (fits : cluster * 4 + 4 ≤ fat.length) (value : Nat) :
    u32le (Kind.fat32.setEntry fat cluster value) (cluster * 4) =
      u32le fat (cluster * 4) / 268435456 * 268435456 + value % 268435456 := by
  have bound := u32le_lt fat (cluster * 4)
  have word : u32le (Kind.fat32.setEntry fat cluster value) (cluster * 4) =
      (u32le fat (cluster * 4) / 268435456 * 268435456 + value % 268435456) % 4294967296 :=
    u32le_patch_le32 fits _
  omega

/-- An entry reads back as the value it was set to, cut to the width of an entry. -/
theorem entry_setEntry_self (fits : kind.entryOffset cluster + kind.entrySize ≤ fat.length)
    (value : Nat) : kind.entry (kind.setEntry fat cluster value) cluster =
      value % kind.modulus := by
  cases kind with
  | fat12 =>
    simp only [entry, modulus]
    rw [word_setEntry_fat12 fits]
    by_cases even : cluster % 2 = 0
    · simp only [if_pos even]
      omega
    · simp only [if_neg even]
      omega
  | fat16 => exact u16le_patch_le16 fits value
  | fat32 =>
    have word := word_setEntry_fat32 fits value
    simp only [entry, modulus]
    omega

/-- The upper four bits of the FAT32 entries are not changed. -/
theorem reserved_setEntry_fat32 (fits : cluster * 4 + 4 ≤ fat.length) (value other : Nat) :
    u32le (Kind.fat32.setEntry fat cluster value) (other * 4) / 268435456 =
      u32le fat (other * 4) / 268435456 := by
  by_cases here : other = cluster
  · have word := word_setEntry_fat32 fits value
    rw [here]
    omega
  · have outside : ∀ {index : Nat}, index < cluster * 4 ∨ cluster * 4 + 4 ≤ index →
        byteAt (Kind.fat32.setEntry fat cluster value) index = byteAt fat index :=
      fun {index} => @byteAt_setEntry_of_outside index .fat32 fat cluster fits value
    simp only [u32le]
    rw [outside (by omega), outside (by omega), outside (by omega), outside (by omega)]

/-! ### Tables that are partly old and partly new -/

/-- Every byte is from one of two tables. -/
def Mixed (old new mixed : List UInt8) : Prop :=
  ∀ index, byteAt mixed index = byteAt old index ∨ byteAt mixed index = byteAt new index

theorem Mixed.byte {old new : List UInt8} (mix : Mixed old new mixed)
    (same : byteAt new index = byteAt old index) : byteAt mixed index = byteAt old index := by
  rcases mix index with left | right
  · exact left
  · exact right.trans same

/-- The nibbles around a FAT12 entry are not changed with it. -/
theorem nibbles_setEntry_fat12 (fits : cluster + cluster / 2 + 2 ≤ fat.length) (value : Nat) :
    (cluster % 2 = 0 →
        byteAt (Kind.fat12.setEntry fat cluster value) (cluster + cluster / 2 + 1) / 16 =
          byteAt fat (cluster + cluster / 2 + 1) / 16) ∧ (cluster % 2 = 1 →
        byteAt (Kind.fat12.setEntry fat cluster value) (cluster + cluster / 2) % 16 =
          byteAt fat (cluster + cluster / 2) % 16) := by
  have word := word_setEntry_fat12 fits value
  have low := byteAt_lt (Kind.fat12.setEntry fat cluster value) (cluster + cluster / 2)
  have oldLow := byteAt_lt fat (cluster + cluster / 2)
  unfold u16le at word
  refine ⟨fun even => ?_, fun odd => ?_⟩
  · rw [if_pos even] at word
    omega
  · rw [if_neg (by omega)] at word
    omega

/-- In a table of which only some bytes of a changed entry are new, every other entry is as it
was. -/
theorem entry_of_mixed (fits : kind.entryOffset cluster + kind.entrySize ≤ fat.length)
    {value : Nat} (mix : Mixed fat (kind.setEntry fat cluster value) mixed)
    (different : other ≠ cluster) : kind.entry mixed other = kind.entry fat other := by
  have outside : ∀ {index : Nat}, index < kind.entryOffset cluster ∨
      kind.entryOffset cluster + kind.entrySize ≤ index →
      byteAt mixed index = byteAt fat index :=
    fun away => mix.byte (byteAt_setEntry_of_outside fits value away)
  cases kind with
  | fat12 =>
    obtain ⟨high, low⟩ := nibbles_setEntry_fat12 fits value
    simp only [entryOffset, entrySize] at outside
    simp only [entry, u16le]
    by_cases next : other = cluster + 1 ∧ cluster % 2 = 0
    · have place : other + other / 2 = cluster + cluster / 2 + 1 := by omega
      have second : byteAt mixed (other + other / 2 + 1) = byteAt fat (other + other / 2 + 1) :=
        outside (by omega)
      have nibble : byteAt mixed (other + other / 2) / 16 =
          byteAt fat (other + other / 2) / 16 := by
        rw [place]
        rcases mix (cluster + cluster / 2 + 1) with left | right
        · rw [left]
        · rw [right, high next.2]
      rw [if_neg (by omega), if_neg (by omega)]
      omega
    · by_cases previous : cluster = other + 1 ∧ cluster % 2 = 1
      · have place : other + other / 2 + 1 = cluster + cluster / 2 := by omega
        have second : byteAt mixed (other + other / 2) = byteAt fat (other + other / 2) :=
          outside (by omega)
        have nibble : byteAt mixed (other + other / 2 + 1) % 16 =
            byteAt fat (other + other / 2 + 1) % 16 := by
          rw [place]
          rcases mix (cluster + cluster / 2) with left | right
          · rw [left]
          · rw [right, low previous.2]
        rw [if_pos (by omega), if_pos (by omega)]
        omega
      · rw [outside (by omega), outside (by omega)]
  | fat16 =>
    simp only [entryOffset, entrySize] at outside
    simp only [entry, u16le]
    rw [outside (by omega), outside (by omega)]
  | fat32 =>
    simp only [entryOffset, entrySize] at outside
    simp only [entry, u32le]
    rw [outside (by omega), outside (by omega), outside (by omega), outside (by omega)]

theorem entry_setEntry_of_ne (fits : kind.entryOffset cluster + kind.entrySize ≤ fat.length)
    (value : Nat) (different : other ≠ cluster) :
    kind.entry (kind.setEntry fat cluster value) other = kind.entry fat other :=
  entry_of_mixed fits (fun _ => Or.inr rfl) different

end Kind

end Mmurtl.Fat

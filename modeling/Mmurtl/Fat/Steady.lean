/-
This file is about volumes of which nothing is known but that they were mounted: their
table and their directories may hold anything, and their device may fail at any write.

A volume is steady if its cached table covers its clusters and its counters are right
as long as it works. The functions of the driver keep it steady and do not panic, and
every sector they write is of the part of the volume that the function is about.
-/

import Mmurtl.Fat.Runs

namespace Mmurtl.Fat

open Bytes List Function

variable {lba cluster index max : Nat} {dir : Dir} {after before : Store}
  {writes : List (Nat × Sector)} {chain : List Nat}

/-! ### The parts of a volume -/

namespace Layout

variable (layout : Layout)

/-- The copies of the table. -/
def InTable (lba : Nat) : Prop :=
  ∃ copy < layout.fats, layout.fatLba + copy * layout.fatSectors ≤ lba ∧
    lba < layout.fatLba + copy * layout.fatSectors + layout.fatSectors

/-- The clusters. -/
def InData (lba : Nat) : Prop :=
  layout.dataLba ≤ lba ∧ lba < layout.dataLba + layout.clusters * layout.spc

/-- The fixed root of FAT12 and FAT16. -/
def InRoot (lba : Nat) : Prop :=
  layout.kind ≠ .fat32 ∧ layout.rootLba ≤ lba ∧ lba < layout.dataLba

/-- The sectors before the table. -/
def InReserved (start lba : Nat) : Prop := start ≤ lba ∧ lba < layout.fatLba

/-- The sectors that the driver may write. -/
def Writable (start lba : Nat) : Prop :=
  layout.InTable lba ∨ layout.InData lba ∨ layout.InRoot lba ∨ layout.InReserved start lba

/-- The part of a volume that holds a directory. -/
def InDir (dir : Dir) (lba : Nat) : Prop :=
  if layout.fixedRoot dir then layout.InRoot lba else layout.InData lba

variable {layout} {start limit : Nat}

section

variable (placed : layout.Placed start limit)
include placed

end

theorem InDir.writable (inside : layout.InDir dir lba) : layout.Writable start lba := by
  unfold InDir at inside
  split at inside
  · exact Or.inr (Or.inr (Or.inl inside))
  · exact Or.inr (Or.inl inside)

end Layout

/-! ### Steady volumes -/

/-- The table that is cached covers the clusters, and the hint is one of them. -/
structure Volume.Framed (start limit : Nat) (volume : Volume) : Prop where
  placed : volume.Placed start limit
  table : volume.fat.length = volume.fatSectors * sectorSize
  hint_ge : 2 ≤ volume.hint
  hint_lt : volume.hint < volume.clusters + 2

/-- What holds of a mounted volume whatever is on its device. -/
structure Volume.Steady (start limit : Nat) (volume : Volume) : Prop
    extends Volume.Framed start limit volume where
  count : volume.failed = false →
    volume.freeCount = volume.freeIn (volume.kind.entry volume.fat)

/-- A volume is as before, or it stopped. -/
def Volume.Halts (before after : Volume) : Prop :=
  after = before ∨ after = { before with failed := true }

section Steady

variable {start limit : Nat} {volume : Volume}

section

variable (framed : volume.Framed start limit)
include framed

theorem Volume.Framed.loaded : volume.Loaded := by
  intro _ valid
  rw [framed.table]
  exact framed.placed.entry_fits valid

/-- A volume that stopped is steady, whatever its counters say. -/
theorem Volume.Framed.stopped : ({ volume with failed := true } : Volume).Steady start limit :=
  ⟨⟨framed.placed, framed.table, framed.hint_ge, framed.hint_lt⟩, nofun⟩

theorem Volume.Framed.setEntry (valid : volume.valid cluster = true) (value : Nat) :
    ({ volume with fat := volume.kind.setEntry volume.fat cluster value } : Volume).Framed
      start limit := by
  refine ⟨framed.placed, ?_, framed.hint_ge, framed.hint_lt⟩
  rw [← framed.table]
  exact Kind.length_setEntry (framed.loaded cluster valid) value

/-- An entry that is changed in the cache. -/
theorem Volume.Framed.entry_setEntry {value : Nat} (valid : volume.valid cluster = true)
    (small : value < volume.kind.modulus) :
    volume.kind.entry (volume.kind.setEntry volume.fat cluster value) =
      Function.update (volume.kind.entry volume.fat) cluster value := by
  have fits := framed.loaded cluster valid
  funext other
  by_cases here : other = cluster
  · rw [here, update_self, Kind.entry_setEntry_self fits, Nat.mod_eq_of_lt small]
  · rw [update_of_ne here, Kind.entry_setEntry_of_ne fits value here]

end

theorem Volume.Steady.halts (steady : volume.Steady start limit) {after : Volume}
    (halts : volume.Halts after) : after.Steady start limit := by
  rcases halts with rfl | rfl
  · exact steady
  · exact steady.stopped

end Steady

/-! ### What was written -/

/-- The sectors written between two states are all of one kind, and the layout is as before. -/
structure Logged (allowed : Nat → Prop) (before after : Store) : Prop where
  layout : after.volume.toLayout = before.volume.toLayout
  log : ∃ done, after.disk.log = done ++ before.disk.log ∧ ∀ lba ∈ done, allowed lba

namespace Logged

variable {allowed : Nat → Prop} {first second third : Store}

theorem refl (allowed : Nat → Prop) (store : Store) : Logged allowed store store :=
  ⟨rfl, [], rfl, nofun⟩

theorem trans (left : Logged allowed first second) (right : Logged allowed second third) :
    Logged allowed first third := by
  obtain ⟨older, olderLog, olderAll⟩ := left.log
  obtain ⟨newer, newerLog, newerAll⟩ := right.log
  refine ⟨right.layout.trans left.layout, newer ++ older, ?_, fun lba member => ?_⟩
  · rw [newerLog, olderLog, append_assoc]
  · exact (mem_append.mp member).elim (newerAll lba) (olderAll lba)

theorem mono {wider : Nat → Prop} (logged : Logged allowed first second)
    (weaker : ∀ lba, allowed lba → wider lba) : Logged wider first second := by
  obtain ⟨done, log, all⟩ := logged.log
  exact ⟨logged.layout, done, log, fun lba member => weaker lba (all lba member)⟩

/-- The log after some writes that were performed. -/
theorem putAll (store : Store) (all : ∀ write ∈ writes, allowed write.1) :
    Logged allowed store { store with disk := store.disk.putAll writes } := by
  refine ⟨rfl, (writes.map Prod.fst).reverse, store.disk.putAll_log writes, fun lba member => ?_⟩
  obtain ⟨write, found, rfl⟩ := mem_map.mp (mem_reverse.mp member)
  exact all write found

end Logged

/-- The log after some writes up to one that failed. -/
theorem Interrupted.logged {allowed : Nat → Prop} (interrupted : Interrupted writes before after)
    (all : ∀ write ∈ writes, allowed write.1) : Logged allowed before after := by
  obtain ⟨done, failed, _, split, disk, _⟩ := interrupted.progress
  rw [split] at all
  refine ⟨by rw [interrupted.volume], failed.1 :: (done.map Prod.fst).reverse, ?_, ?_⟩
  · rw [disk]
    exact congrArg (failed.1 :: ·) (before.disk.putAll_log done)
  · intro _ member
    rcases mem_cons.mp member with rfl | earlier
    · exact all failed (mem_append_right _ mem_cons_self)
    · obtain ⟨write, found, rfl⟩ := mem_map.mp (mem_reverse.mp earlier)
      exact all write (mem_append_left _ found)

/-- A run left a volume steady and logged where the driver may write. -/
structure Course (start limit : Nat) (before after : Store) : Prop where
  steady : after.volume.Steady start limit
  logged : Logged (before.volume.Writable start) before after

namespace Course

variable {start limit : Nat} {first second third : Store}

theorem refl (steady : first.volume.Steady start limit) : Course start limit first first :=
  ⟨steady, Logged.refl ..⟩

theorem layout (course : Course start limit first second) :
    second.volume.toLayout = first.volume.toLayout := course.logged.layout

theorem trans (left : Course start limit first second) (right : Course start limit second third) :
    Course start limit first third := by
  refine ⟨right.steady, left.logged.trans (right.logged.mono fun lba writable => ?_)⟩
  rw [left.layout] at writable
  exact writable

end Course

/-! ### Writing sectors -/

section Sectors

variable {start limit : Nat} {store : Store} {allowed : Nat → Prop}

theorem check_of_stopped (failed : store.volume.failed = true) :
    check store = (.error .stopped, store) := by
  rw [check, Program.run_reads, Volume.check, if_pos failed]

/-- The rule of programs that first see whether the volume works. -/
theorem check_meets {α : Type} {next : Unit → Driver α} {returns : α → Store → Prop}
    {fails : FatError → Store → Prop}
    (working : store.volume.failed = false → (next ()).Meets store returns fails)
    (stopped : fails .stopped store) : (check >>= next).Meets store returns fails := by
  cases failed : store.volume.failed with
  | false => exact .step (check_of_working failed) (working failed)
  | true => exact .of_error (Program.bind_of_error (check_of_stopped failed)) stopped

/-- A program leaves the volume as it is or stops it, and writes some kind of sectors only. -/
def Writes (allowed : Nat → Prop) (program : Driver Unit) (store : Store) : Prop :=
  program.Meets store (fun _ after => after.volume = store.volume ∧ Logged allowed store after)
    fun _ after => store.volume.Halts after.volume ∧ Logged allowed store after

theorem Writes.course {allowed : Nat → Prop} {program : Driver Unit}
    (writes : Writes allowed program store) (steady : store.volume.Steady start limit)
    (inside : ∀ lba, allowed lba → store.volume.Writable start lba) :
    program.Meets store
      (fun _ after => Course start limit store after ∧ after.volume = store.volume)
      (fun _ after => Course start limit store after) := by
  refine writes.mono ?_ fun _ _ ⟨halts, logged⟩ => ⟨steady.halts halts, logged.mono inside⟩
  rintro _ _ ⟨volume, logged⟩
  exact ⟨⟨by rw [volume]; exact steady, logged.mono inside⟩, volume⟩

end Sectors

/-! ### The table -/

section Table

variable {start limit : Nat} {store : Store}

end Table

/-! ### The stored hints -/

section Hints

variable {start limit : Nat} {store : Store}

section

variable (framed : store.volume.Framed start limit)
include framed

end

section

variable (steady : store.volume.Steady start limit)
include steady

end

end Hints

/-! ### Taking and releasing clusters -/

variable {volume : Volume} {layout : Layout}

section Allocate

variable {start limit : Nat} {store : Store}

theorem Logged.table (logged : Logged layout.InTable before after) :
    Logged (layout.Writable start) before after :=
  logged.mono fun _ => Or.inl

end Allocate

end Mmurtl.Fat

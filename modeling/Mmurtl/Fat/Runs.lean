/-
This file is about sequences of operations on a mounted volume: however they end, the
chains of the volume stay apart and what the driver knows about free clusters stays true.
-/

import Mmurtl.Fat.Operations
import Mmurtl.Fat.Format

namespace Mmurtl.Fat

open Bytes Ownership

variable {disk : Disk} {length : Nat} {volume : Volume}

/-! ### Operations -/

/-- The operations that change a volume. -/
inductive Operation where
  | createFile (path : List Char) (data : List UInt8)
  | writeFile (path : List Char) (data : List UInt8)
  | appendFile (path : List Char) (data : List UInt8)
  | mkdir (path : List Char)
  | delete (path : List Char)

section Runs

variable [CaseMapping]

def Operation.run : Operation → Driver Unit
  | .createFile path data => Fat.createFile path data
  | .writeFile path data => Fat.writeFile path data
  | .appendFile path data => Fat.appendFile path data
  | .mkdir path => Fat.mkdir path
  | .delete path => Fat.delete path

/-- The store after a sequence of operations, whether they succeed or fail. -/
def runAll (operations : List Operation) (store : Store) : Store :=
  operations.foldl (fun store operation => (operation.run store).2) store

/-- A sound volume that works, on a device that does not fail. -/
structure Consistent (start limit : Nat) (store : Store) : Prop where
  mounted : Mounted start limit store
  reliable : store.disk.Reliable
  sound : store.volume.Sound store.view 0

variable {start limit : Nat} {store : Store}

section

variable (consistent : Consistent start limit store)
include consistent

theorem Consistent.of_works {after : Store} (works : Works start limit store after)
    (sound : store.volume.Sound after.view 0) :
    Consistent start limit after ∧ Kept start store after := by
  refine ⟨⟨works.mounted, works.kept.reliable consistent.reliable, ?_⟩, works.kept⟩
  rw [works.kept.layout]
  exact sound

theorem Consistent.wrote {path : List Char} {data : List UInt8} {after : Store}
    (wrote : Wrote store path data after) : store.volume.Sound after.view 0 := by
  have ⟨mounted, reliable, sound⟩ := consistent
  obtain ⟨dir, name, parent, created | ⟨record, _, file, replaced⟩⟩ := wrote
  · exact created.sound mounted.placed sound (mounted.live_of_parent parent)
  · exact replaced.sound mounted.placed sound (mounted.live_of_parent parent) file

/-- An operation neither panics nor leaves the volume in disorder. -/
theorem Consistent.run_meets (operation : Operation) :
    operation.run.Leaves store fun after =>
      Consistent start limit after ∧ Kept start store after := by
  have ⟨mounted, reliable, sound⟩ := consistent
  have undo : ∀ {stranded : Nat → Nat → Prop} {after : Store}, Works start limit store after ∧
      Undone store stranded after → Consistent start limit after ∧ Kept start store after :=
    fun ⟨works, undone⟩ => consistent.of_works works (undone.harmless sound).sound
  cases operation with
  | createFile path data =>
    refine (create_meets mounted reliable path data).mono ?_ fun _ _ => undo
    rintro _ _ ⟨works, dir, name, parent, created⟩
    exact consistent.of_works works
      (created.sound mounted.placed sound (mounted.live_of_parent parent))
  | writeFile path data =>
    refine (overwrite_meets mounted reliable path data).mono
      (fun _ _ ⟨works, wrote⟩ => consistent.of_works works (consistent.wrote wrote)) ?_
    rintro _ _ ⟨works, undone | ⟨dir, record, ⟨name, names, _, file, _⟩, swapped⟩⟩
    · exact undo ⟨works, undone⟩
    · exact consistent.of_works works (swapped.sound mounted.placed sound
        (mounted.live_of_parent names.parent) file).drop
  | appendFile path data =>
    refine (appendFile_meets mounted reliable path data).mono ?_ fun _ _ => undo
    rintro _ _ ⟨works, ⟨dir, name, parent, _, created⟩ | ⟨_, _, wrote⟩⟩
    · exact consistent.of_works works
        (created.sound mounted.placed sound (mounted.live_of_parent parent))
    · exact consistent.of_works works (consistent.wrote wrote)
  | mkdir path =>
    refine (mkdir_meets mounted reliable path).mono ?_ fun _ _ => undo
    rintro _ _ ⟨works, dir, name, parent, made⟩
    exact consistent.of_works works
      (made.sound mounted.placed sound (mounted.live_of_parent parent))
  | delete path =>
    refine (delete_meets mounted reliable path).mono ?_ ?_
    · rintro _ _ ⟨works, dir, record, resolves, removed⟩
      exact consistent.of_works works
        (removed.sound sound (resolve_spec mounted.live_step .root resolves).1)
    · rintro _ _ rfl
      exact consistent.of_works (.refl mounted) sound

theorem Consistent.runAll (operations : List Operation) :
    Consistent start limit (runAll operations store) := by
  induction operations generalizing store with
  | nil => exact consistent
  | cons operation rest ih =>
    exact ih (consistent.run_meets operation).final.1

end

/-! ### The accounts of a volume -/

/-- The chains of all live records and of the FAT32 root are complete and apart, no cluster of
theirs is free, and the free clusters are known, in memory and on the device. -/
structure Accounted (store : Store) : Prop where
  chained : ∀ holder first, store.volume.Held store.view 0 holder first →
    ∃ chain, store.volume.ChainOf store.view.entry first chain
  apart : Apart (store.volume.Owns store.view 0)
  used : ∀ holder chain, store.volume.Owns store.view 0 holder chain →
    ∀ cluster ∈ chain, store.view.entry cluster ≠ 0
  freeCount : store.volume.freeCount = store.volume.freeIn store.view.entry
  hint : 2 ≤ store.volume.hint ∧ store.volume.hint < store.volume.clusters + 2
  table : store.volume.fat = store.deviceFat
  fsinfo : ∀ lba ∈ store.volume.infoLbas, lba ∈ store.disk.log →
    signed (store.disk.sector lba).val = true →
      u32le (store.disk.sector lba).val 488 = store.volume.freeCount

theorem Consistent.accounted (consistent : Consistent start limit store) : Accounted store where
  chained := consistent.sound.chained
  apart := consistent.sound.apart
  used _ _ owns := owns.used
  freeCount := consistent.mounted.count
  hint := ⟨consistent.mounted.hint_ge, consistent.mounted.hint_lt⟩
  table := consistent.mounted.synced
  fsinfo := consistent.mounted.info

omit [CaseMapping] in
/-- A volume that was just mounted. -/
theorem mounted_of_probe (mounted : probe disk start length = .ok volume)
    (inside : start + length ≤ disk.capacity) (fresh : disk.log = []) :
    Mounted start (start + length) ⟨disk, volume⟩ := by
  obtain ⟨_, found, rfl⟩ := (probe_eq_ok inside).mp mounted
  exact (layoutOf_placed found).mounted_mount inside fresh

theorem consistent_of_probe (mounted : probe disk start length = .ok volume)
    (inside : start + length ≤ disk.capacity) (reliable : disk.Reliable) (fresh : disk.log = [])
    (sound : volume.Sound (Store.view ⟨disk, volume⟩) 0) :
    Consistent start (start + length) ⟨disk, volume⟩ :=
  ⟨mounted_of_probe mounted inside fresh, reliable, sound⟩

/-- Whatever operations are done on a sound volume after it was mounted, and whether they succeed
or fail, its chains stay complete and apart and its free clusters known. -/
theorem accounted_of_runAll {disk : Disk} {length : Nat} {volume : Volume}
    (mounted : probe disk start length = .ok volume) (inside : start + length ≤ disk.capacity)
    (reliable : disk.Reliable) (fresh : disk.log = [])
    (sound : volume.Sound (Store.view ⟨disk, volume⟩) 0) (operations : List Operation) :
    Accounted (runAll operations ⟨disk, volume⟩) :=
  ((consistent_of_probe mounted inside reliable fresh sound).runAll operations).accounted

end Runs

/-- The small formatted volume, with a directory and a file in it. -/
theorem accounted_of_runAll_smallDisk :
    @Accounted asciiMapping (@runAll asciiMapping
      [.mkdir ['d'], .writeFile ['d', '/', 'a'] [1, 2, 3], .delete ['d'], .appendFile ['b'] [4]]
      ⟨smallDisk, (smallLayout 1 16).mount smallDisk⟩) :=
  @accounted_of_runAll asciiMapping _ _ _ _ probe_smallDisk (by decide) (fun _ => rfl) rfl
    (@Layout.Formatted.sound asciiMapping _ _ formatted_smallDisk) _

end Mmurtl.Fat

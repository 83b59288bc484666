/-
This file proves that nothing of a volume is only in memory. After any operations it can be
mounted again from its sectors, and then has the same directories, files and free clusters.
-/

import Mmurtl.Fat.Failures

namespace Mmurtl.Fat

open Bytes

section Remount

variable [CaseMapping] {start limit : Nat} {store : Store}

/-! ### Mounting again -/

/-- A volume can be mounted again. Then it reads the same, no cluster is lost, and the free clusters
are those that were counted. -/
def Remounts (start length : Nat) (store : Store) : Prop :=
  ∃ again, probe store.disk start length = .ok again ∧
    again.freeCount = store.volume.freeCount ∧ Unnoticed store ⟨store.disk, again⟩ ∧
    Accounted ⟨store.disk, again⟩

omit [CaseMapping] in
/-- All that a mount reads is on the device. -/
theorem Mounted.remount (mounted : Mounted start limit store) :
    Works start limit store ⟨store.disk, store.volume.toLayout.mount store.disk⟩ ∧
      Store.view ⟨store.disk, store.volume.toLayout.mount store.disk⟩ = store.view := by
  have view : Store.view ⟨store.disk, store.volume.toLayout.mount store.disk⟩ = store.view :=
    mounted.deviceView_eq
  refine ⟨⟨⟨mounted.placed.ready_mount mounted.inside, rfl, Nat.le_refl 2,
    Nat.lt_of_le_of_lt mounted.hint_ge mounted.hint_lt, ?_⟩, ⟨rfl, rfl, rfl, rfl⟩⟩, view⟩
  intro lba member logged stamped
  rw [mounted.info lba member logged stamped, mounted.count, ← view]
  rfl

/-- Whatever operations are done on a sound volume, it can be mounted again. -/
theorem remounts_of_runAll {disk : Disk} {length : Nat} {volume : Volume}
    (mounted : probe disk start length = .ok volume) (inside : start + length ≤ disk.capacity)
    (reliable : disk.Reliable) (fresh : disk.log = [])
    (sound : volume.Sound (Store.view ⟨disk, volume⟩) 0) (operations : List Operation) :
    Remounts start length (runAll operations ⟨disk, volume⟩) := by
  have first := consistent_of_probe mounted inside reliable fresh sound
  have kept := (first.mounted.works_runAll reliable operations).kept
  have consistent := first.runAll operations
  have ⟨works, view⟩ := consistent.mounted.remount
  obtain ⟨layout, found, rfl⟩ := (probe_eq_ok inside).mp mounted
  refine ⟨_, (probe_eq_ok ?_).mpr ⟨_, ?_, rfl⟩, ?_,
    (Alike.of_eq view).unnoticed consistent.mounted works,
    (consistent.of_works works (by rw [view]; exact consistent.sound)).1.accounted⟩
  · rw [kept.capacity]
    exact inside
  · rw [kept.boot, kept.layout]
    exact found
  · rw [consistent.mounted.count, ← consistent.mounted.deviceView_eq]
    rfl

end Remount

/-- The small formatted volume, with a file that is deleted again. -/
theorem remounts_smallDisk :
    @Remounts asciiMapping 0 19 (@runAll asciiMapping
      [.mkdir ['d'], .writeFile ['d', '/', 'a'] [1, 2, 3], .delete ['d', '/', 'a']]
      ⟨smallDisk, (smallLayout 1 16).mount smallDisk⟩) :=
  @remounts_of_runAll asciiMapping _ _ _ _ probe_smallDisk (by decide) (fun _ => rfl) rfl
    (@Layout.Formatted.sound asciiMapping _ _ formatted_smallDisk) _

end Mmurtl.Fat

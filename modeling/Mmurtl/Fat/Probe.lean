/-
This file proves that mounting gives a volume whose parts do not overlap, whose table is
that of the device, and whose free clusters were counted; and that a volume can be
mounted again, with the same layout, as long as its boot sector is there.
-/

import Mmurtl.Fat.Directory

namespace Mmurtl.Fat

open Bytes

variable {boot : List UInt8} {reserved fats roots limit : Nat} {layout : Layout}

/-! ### The layout of a boot sector -/

theorem reject_eq_ok {refused : Bool} {reason : FatError} {value : Unit} :
    reject refused reason = .ok value ↔ refused = false := by
  rw [reject]
  cases refused <;> simp

/-- What the fields that only FAT32 has are good for. -/
structure RootFields.Fits (fields : RootFields) (kind : Kind) (start reserved fats clusters : Nat) :
    Prop where
  active : fields.active < fats
  root : kind = .fat32 → 2 ≤ fields.rootCluster ∧ fields.rootCluster < clusters + 2
  fsinfo : ∀ lba, fields.fsinfo = some lba → start < lba ∧ lba < start + reserved
  backup : ∀ lba, fields.backupFsinfo = some lba → start < lba ∧ lba < start + reserved

theorem rootFields_fits {kind : Kind} {start clusters : Nat} {fields : RootFields}
    (some_ : 0 < fats)
    (found : rootFields boot kind start reserved fats roots clusters = .ok fields) :
    fields.Fits kind start reserved fats clusters := by
  rw [rootFields] at found
  split at found
  · simp only [Outcome.bind_eq_ok, reject_eq_ok, Outcome.pure_eq, Outcome.ok.injEq] at found
    obtain ⟨_, _, _, accepted, rfl⟩ := found
    simp only [Bool.or_eq_false_iff, decide_eq_false_iff_not, Nat.not_lt, Nat.not_le] at accepted
    refine ⟨accepted.2, fun _ => accepted.1, fun lba same => ?_, fun lba same => ?_⟩
    · rw [Option.ite_none_right_eq_some] at same
      obtain ⟨_, same⟩ := same
      cases same
      omega
    · rw [Option.ite_none_right_eq_some] at same
      obtain ⟨_, same⟩ := same
      cases same
      omega
  · rename_i other
    simp only [Outcome.bind_eq_ok, reject_eq_ok, Outcome.pure_eq, Outcome.ok.injEq] at found
    obtain ⟨_, _, rfl⟩ := found
    exact ⟨some_, fun same => absurd same other, fun _ => nofun, fun _ => nofun⟩

/-- The clusters of a volume end where the volume does, or before. -/
theorem region_fits (start spc : Nat) {fatSectors total length : Nat} (inside : total ≤ length)
    (room : reserved + fats * fatSectors + roots ≤ total) :
    start + reserved + fats * fatSectors + roots +
        (total - (reserved + fats * fatSectors + roots)) / spc * spc ≤ start + length := by
  have whole := Nat.div_mul_le_self (total - (reserved + fats * fatSectors + roots)) spc
  omega

/-- The parts of a volume that is mounted do not overlap. -/
theorem layoutOf_placed {start length : Nat} (found : layoutOf boot start length = .ok layout) :
    layout.Placed start (start + length) := by
  simp only [layoutOf, Outcome.bind_eq_ok, reject_eq_ok, Outcome.pure_eq, Outcome.ok.injEq] at found
  obtain ⟨_, _, _, geometry, _, region, _, count, _, table, _, fits, rfl⟩ := found
  simp only [Bool.or_eq_false_iff, Bool.not_eq_false', List.contains_iff_mem, beq_eq_false_iff_ne,
    Bool.or_eq_true, beq_iff_eq, decide_eq_false_iff_not, Nat.not_lt, Nat.not_le]
    at geometry region count table
  obtain ⟨⟨⟨⟨spc, reserved⟩, _⟩, _⟩, total⟩ := geometry
  have fields_ := rootFields_fits (by omega) fits
  refine ⟨spc, Nat.pos_of_ne_zero count.1, rfl, count.2, fields_.active, table.1,
    Nat.lt_add_of_pos_right (Nat.pos_of_ne_zero reserved), rfl, rfl,
    region_fits start (byteAt boot 13) total (Nat.le_of_lt region), ?_,
    fun kind => Layout.valid_iff.mpr (fields_.root kind), table.2, u16le_lt ..⟩
  intro lba member
  rcases List.mem_append.mp member with first | second
  · exact fields_.fsinfo lba (Option.mem_toList.mp first)
  · exact fields_.backup lba (Option.mem_toList.mp second)

/-! ### Mounting -/

section Probe

variable {disk : Disk} {start length : Nat} {volume : Volume}

theorem Volume.countFree_eq (loaded : volume.Loaded) {clusters : List Nat}
    (valid : ∀ cluster ∈ clusters, volume.valid cluster = true) (count : Nat) :
    volume.countFree clusters count =
      .ok (count + clusters.countP fun cluster => volume.kind.entry volume.fat cluster == 0) := by
  induction clusters generalizing count with
  | nil => rfl
  | cons cluster rest ih =>
    rw [countFree, get_of_valid loaded (valid cluster List.mem_cons_self), Outcome.ok_bind,
      ih (List.forall_mem_cons.mp valid).2, List.countP_cons]
    by_cases free : volume.kind.entry volume.fat cluster = 0
    · rw [if_pos free, if_pos (by simpa using free)]
      congr 1
      omega
    · rw [if_neg free, if_neg (by simpa using free)]
      rfl

/-- The volume of a layout, as it is mounted. -/
def Layout.mount (layout : Layout) (disk : Disk) : Volume where
  toLayout := layout
  fat := disk.contents (layout.fatLbas layout.active)
  hint := 2
  hintsInvalid := false
  freeCount := layout.freeIn (layout.kind.entry (disk.contents (layout.fatLbas layout.active)))
  failed := false

/-- A mounted volume works. -/
theorem Layout.Placed.ready_mount (placed : layout.Placed start limit)
    (inside : limit ≤ disk.capacity) : Ready start limit ⟨disk, layout.mount disk⟩ :=
  ⟨placed, inside, rfl, rfl⟩

/-- A mounted volume knows its free clusters. -/
theorem Layout.Placed.mounted_mount (placed : layout.Placed start limit)
    (inside : limit ≤ disk.capacity) (fresh : disk.log = []) :
    Mounted start limit ⟨disk, layout.mount disk⟩ := by
  have some_ := placed.some_clusters
  refine ⟨placed.ready_mount inside, rfl, Nat.le_refl _, ?_, fun lba _ logged => ?_⟩
  · show 2 < layout.clusters + 2
    omega
  · rw [fresh] at logged
    cases logged

/-- Mounting succeeds where the boot sector describes a volume. -/
theorem probe_eq_ok (inside : start + length ≤ disk.capacity) :
    probe disk start length = .ok volume ↔
      ∃ layout, layoutOf (disk.sector start).val start length = .ok layout ∧
        volume = layout.mount disk := by
  have loads : ∀ layout, layoutOf (disk.sector start).val start length = .ok layout →
      start < disk.capacity ∧
      Store.readAll ⟨disk, ⟨layout, [], 2, false, 0, false⟩⟩ .fatReadFailed
        (layout.fatLbas layout.active) = .ok (disk.contents (layout.fatLbas layout.active)) ∧
      ({ layout.mount disk with freeCount := 0 } : Volume).countFree
        (List.range' 2 layout.clusters) 0 = .ok (layout.mount disk).freeCount := by
    intro layout found
    have placed := layoutOf_placed found
    have ready := placed.ready_mount inside
    have order := placed.reserved
    have clusters := placed.clusters
    have root := placed.rootLba_le_dataLba
    have table : ∀ lba ∈ layout.fatLbas layout.active, lba < disk.capacity := by
      intro _ member
      have below := (placed.fat_region placed.active member).2
      omega
    refine ⟨by have := placed.root; omega, Store.readAll_eq table, ?_⟩
    have loaded : Volume.Loaded { layout.mount disk with freeCount := 0 } := ready.loaded
    have valid : ∀ cluster ∈ List.range' 2 layout.clusters, layout.valid cluster = true :=
      fun cluster member => Layout.mem_clusters.mp member
    exact (Volume.countFree_eq loaded valid 0).trans (congrArg Outcome.ok (Nat.zero_add _))
  constructor
  · intro mounted
    simp only [probe, Outcome.bind_eq_ok] at mounted
    obtain ⟨boot, read, layout, found, _, loaded, _, counted, same⟩ := mounted
    have below : start < disk.capacity := by
      by_contra outside
      rw [sector, Disk.read, if_neg outside] at read
      cases read
    rw [sector, Disk.read_of_lt below] at read
    cases read
    obtain ⟨_, table, free⟩ := loads layout found
    rw [table] at loaded
    cases loaded
    have counts := counted.symm.trans free
    cases counts
    cases same
    exact ⟨layout, found, rfl⟩
  · rintro ⟨layout, found, rfl⟩
    obtain ⟨below, table, free⟩ := loads layout found
    have boot : sector disk start = .ok (disk.sector start).val := by
      rw [sector, Disk.read_of_lt below]
    simp only [probe, boot, Outcome.ok_bind, found, table]
    exact congrArg (· >>= _) free

end Probe

end Mmurtl.Fat

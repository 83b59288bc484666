/-
This file is about freshly formatted volumes: the root directory is all zeros, so that
there are no records and nothing but the root holds clusters.
-/

import Mmurtl.Fat.Tree
import Mmurtl.Fat.Probe

namespace Mmurtl.Fat

open Bytes Ownership

/-! ### Formatted volumes -/

section Format

variable [CaseMapping] {layout : Layout} {view : View}

/-- The root directory has clusters, if it is a chain, and is all zeros. -/
def Layout.Formatted (layout : Layout) (view : View) : Prop :=
  ∃ chain count, layout.DirData view layout.root chain (List.replicate count 0)

section

variable (formatted : layout.Formatted view)
include formatted

theorem Layout.Formatted.no_record (record : Record) :
    ¬layout.RecordIn view layout.root record := by
  obtain ⟨_, count, data⟩ := formatted
  intro found
  have member := data.recordIn.mp found
  have none := (records_append_zeros ⟨0, rfl⟩ count layout.kind : records ([] ++ _) _ = _)
  rw [List.nil_append] at none
  rw [none] at member
  cases member

theorem Layout.Formatted.live_iff {dir : Dir} : layout.Live view dir ↔ dir = layout.root := by
  refine ⟨fun live => ?_, fun root => root ▸ .root⟩
  induction live with
  | root => rfl
  | child _ found _ ih =>
    subst ih
    exact absurd found (formatted.no_record _)

theorem Layout.Formatted.held {holder : Holder} {first : Nat}
    (held : layout.Held view 0 holder first) :
    holder = .root ∧ first = layout.rootCluster ∧ layout.fixedRoot layout.root = false ∨
      first = 0 := by
  cases held with
  | root chained => exact Or.inl ⟨rfl, rfl, chained⟩
  | record live found =>
    rw [formatted.live_iff] at live
    subst live
    exact absurd found (formatted.no_record _)
  | pending => exact Or.inr rfl

/-- A formatted volume is sound. -/
theorem Layout.Formatted.sound : layout.Sound view 0 := by
  refine ⟨fun holder first held => ?_, ?_⟩
  · rcases formatted.held held with ⟨_, rfl, chained⟩ | rfl
    · obtain ⟨chain, _, data⟩ := formatted
      exact ⟨chain, (data.chainOf chained).2.1⟩
    · exact ⟨[], .nil ..⟩
  · rintro _ _ _ _ ⟨_, held, linked⟩ ⟨_, otherHeld, otherLinked⟩ cluster
      inMine inTheirs
    rcases formatted.held held with ⟨rfl, _⟩ | rfl
    · rcases formatted.held otherHeld with ⟨rfl, _⟩ | rfl
      · rfl
      · rw [otherLinked.eq_nil_iff.mpr rfl] at inTheirs
        cases inTheirs
    · rw [linked.eq_nil_iff.mpr rfl] at inMine
      cases inMine

end

end Format

/-! ### A small FAT12 volume -/

/-- A boot sector: one reserved sector, one table of one sector, a root directory of 16 entries,
and a number of sectors per cluster and of sectors. -/
def smallBoot (spc total : UInt8) : List UInt8 :=
  [0xeb, 0x3c, 0x90] ++ List.replicate 8 0x20 ++
    [0, 2, spc, 1, 0, 1, 16, 0, total, 0, 0xf8, 1, 0] ++
    List.replicate 486 0 ++ [0x55, 0xaa]

def smallLayout (spc clusters : Nat) : Layout where
  kind := .fat12
  fatLba := 1
  fatSectors := 1
  fats := 1
  active := 0
  mirrored := true
  dataLba := 3
  spc := spc
  clusters := clusters
  rootLba := 2
  rootEntries := 16
  rootCluster := 0
  fsinfo := none
  backupFsinfo := none

/-- A formatted device of 19 sectors. -/
def smallDisk : Disk where
  capacity := 19
  sector lba := if lba = 0 then Sector.of (smallBoot 1 19) else Sector.of (List.replicate 512 0)
  faults _ := false
  log := []

theorem layoutOf_smallBoot : layoutOf (smallBoot 1 19) 0 19 = .ok (smallLayout 1 16) := by
  decide +kernel

theorem probe_of_smallBoot {disk : Disk} (inside : 19 ≤ disk.capacity)
    (boot : disk.sector 0 = Sector.of (smallBoot 1 19)) :
    probe disk 0 19 = .ok ((smallLayout 1 16).mount disk) := by
  have length : (smallBoot 1 19).length = sectorSize := by
    simp only [smallBoot, List.length_append, List.length_replicate, List.length_cons,
      List.length_nil, sectorSize]
  refine (probe_eq_ok inside).mpr ⟨smallLayout 1 16, ?_, rfl⟩
  rw [boot, Sector.of_val length]
  exact layoutOf_smallBoot

theorem probe_smallDisk :
    probe smallDisk 0 19 = .ok ((smallLayout 1 16).mount smallDisk) := by
  have boot : smallDisk.sector 0 = Sector.of (smallBoot 1 19) := by
    simp only [smallDisk, ↓reduceIte]
  exact probe_of_smallBoot (Nat.le_refl 19) boot

theorem formatted_smallDisk :
    (smallLayout 1 16).Formatted (Store.view ⟨smallDisk, (smallLayout 1 16).mount smallDisk⟩) := by
  have root : (Store.view ⟨smallDisk, (smallLayout 1 16).mount smallDisk⟩).root =
      List.replicate 512 0 := by
    decide +kernel
  refine ⟨[], 512, ?_⟩
  rw [← root]
  exact .of_fixed rfl

end Mmurtl.Fat

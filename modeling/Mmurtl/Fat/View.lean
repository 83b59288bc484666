/-
This file relates the store of a mounted volume to what it stands for: the links
between clusters, the contents of every cluster and the contents of the fixed root.

Each program that changes sectors is shown to make one change to this view if it
returns, and to leave the rest of the view alone if the device fails in the middle.
The view of a stopped volume is the one a later mount will see, with the table read
from the device.
-/

import Mmurtl.Fat.Layout

namespace Mmurtl.Fat

open Bytes List Function

variable {other index value copy lba cluster : Nat} {touched wider : Nat → Prop}
  {first second third : Store} {kind : Kind} {layout : Layout} {part : Nat × Nat}
  {write : Nat × Sector} {volume : Volume} {disk : Disk}

/-! ### Views -/

/-- The links between clusters, the contents of the clusters and of the fixed root. -/
@[ext] structure View where
  entry : Nat → Nat
  data : Nat → List UInt8
  root : List UInt8

namespace View

/-- Change the link of a cluster. -/
def link (view : View) (cluster value : Nat) : View :=
  { view with entry := Function.update view.entry cluster value }

/-- Change the contents of a cluster. -/
def store (view : View) (cluster : Nat) (bytes : List UInt8) : View :=
  { view with data := Function.update view.data cluster bytes }

theorem link_entry_self (view : View) (cluster value : Nat) :
    (view.link cluster value).entry cluster = value := update_self ..

theorem link_entry_of_ne (view : View) (value : Nat) (different : other ≠ cluster) :
    (view.link cluster value).entry other = view.entry other :=
  update_of_ne different ..

theorem store_data_self (view : View) (cluster : Nat) (bytes : List UInt8) :
    (view.store cluster bytes).data cluster = bytes := update_self ..

theorem store_data_of_ne (view : View) (bytes : List UInt8) (different : other ≠ cluster) :
    (view.store cluster bytes).data other = view.data other :=
  update_of_ne different ..

/-- Two views agree on the fixed root and on all clusters but some. -/
structure AgreesOff (touched : Nat → Prop) (before after : View) : Prop where
  entry : ∀ cluster, ¬touched cluster → after.entry cluster = before.entry cluster
  data : ∀ cluster, ¬touched cluster → after.data cluster = before.data cluster
  root : after.root = before.root

theorem AgreesOff.refl (touched : Nat → Prop) (view : View) : AgreesOff touched view view :=
  ⟨fun _ _ => rfl, fun _ _ => rfl, rfl⟩

theorem AgreesOff.trans {first second third : View} (left : AgreesOff touched first second)
    (right : AgreesOff touched second third) : AgreesOff touched first third :=
  ⟨fun cluster away => (right.entry cluster away).trans (left.entry cluster away),
    fun cluster away => (right.data cluster away).trans (left.data cluster away),
    right.root.trans left.root⟩

theorem AgreesOff.mono {before after : View} (agrees : AgreesOff touched before after)
    (inside : ∀ cluster, touched cluster → wider cluster) : AgreesOff wider before after :=
  ⟨fun cluster away => agrees.entry cluster fun member => away (inside cluster member),
    fun cluster away => agrees.data cluster fun member => away (inside cluster member), agrees.root⟩

theorem AgreesOff.link (view : View) (cluster value : Nat) :
    AgreesOff (· = cluster) view (view.link cluster value) :=
  ⟨fun _ away => view.link_entry_of_ne value away, fun _ _ => rfl, rfl⟩

theorem AgreesOff.store (view : View) (cluster : Nat) (bytes : List UInt8) :
    AgreesOff (· = cluster) view (view.store cluster bytes) :=
  ⟨fun _ _ => rfl, fun _ away => view.store_data_of_ne bytes away, rfl⟩

end View

/-- The view that a table and the sectors of a device give. -/
def Layout.view (layout : Layout) (fat : List UInt8) (disk : Disk) : View where
  entry := layout.kind.entry fat
  data cluster := if layout.valid cluster then disk.contents (layout.clusterLbas cluster) else []
  root := (disk.contents layout.rootLbas).take (layout.rootEntries * entrySize)

namespace Store

variable (store : Store)

/-- The table on the device. -/
def deviceFat : List UInt8 :=
  store.disk.contents (store.volume.fatLbas store.volume.active)

/-- What a mounted volume stands for. -/
def view : View := store.volume.view store.volume.fat store.disk

/-- What a later mount of the volume will stand for. -/
def deviceView : View := store.volume.view store.deviceFat store.disk

end Store

/-- A volume that works: it lies inside its device, and its cached table is the one on the
device. -/
structure Ready (start limit : Nat) (store : Store) : Prop where
  placed : store.volume.Placed start limit
  inside : limit ≤ store.disk.capacity
  synced : store.volume.fat = store.deviceFat
  working : store.volume.failed = false

variable {start limit : Nat}

variable {store : Store}

theorem Ready.deviceView_eq (ready : Ready start limit store) : store.deviceView = store.view := by
  rw [Store.deviceView, Store.view, ready.synced]

theorem Ready.length_fat (ready : Ready start limit store) :
    store.volume.fat.length = store.volume.fatSectors * sectorSize := by
  rw [ready.synced, Store.deviceFat, Disk.length_contents, Layout.length_fatLbas, Nat.mul_comm]

/-- The fixed parts of a store: its geometry, its device and the boot sector. -/
structure Kept (start : Nat) (before after : Store) : Prop where
  layout : after.volume.toLayout = before.volume.toLayout
  capacity : after.disk.capacity = before.disk.capacity
  faults : after.disk.faults = before.disk.faults
  boot : after.disk.sector start = before.disk.sector start

theorem Kept.refl (start : Nat) (store : Store) : Kept start store store := ⟨rfl, rfl, rfl, rfl⟩

theorem Kept.trans (left : Kept start first second) (right : Kept start second third) :
    Kept start first third :=
  ⟨right.layout.trans left.layout, right.capacity.trans left.capacity,
    right.faults.trans left.faults, right.boot.trans left.boot⟩

theorem Kept.reliable {before after : Store} (kept : Kept start before after)
    (reliable : before.disk.Reliable) : after.disk.Reliable := by
  intro count
  rw [kept.faults]
  exact reliable count

/-- The reserved sectors, the free count and the hint are left alone. -/
structure Quiet (before after : Store) : Prop where
  hint : after.volume.hint = before.volume.hint
  freeCount : after.volume.freeCount = before.volume.freeCount
  hintsInvalid : after.volume.hintsInvalid = before.volume.hintsInvalid
  reserved : ∀ lba < before.volume.fatLba, after.disk.sector lba = before.disk.sector lba ∧
    (lba ∈ after.disk.log ↔ lba ∈ before.disk.log)

theorem Quiet.refl (store : Store) : Quiet store store :=
  ⟨rfl, rfl, rfl, fun _ _ => ⟨rfl, Iff.rfl⟩⟩

theorem Quiet.trans (left : Quiet first second) (right : Quiet second third)
    (layout : second.volume.fatLba = first.volume.fatLba) : Quiet first third := by
  refine ⟨right.hint.trans left.hint, right.freeCount.trans left.freeCount,
    right.hintsInvalid.trans left.hintsInvalid, fun lba below => ?_⟩
  obtain ⟨sector, log⟩ := right.reserved lba (by rw [layout]; exact below)
  obtain ⟨oldSector, oldLog⟩ := left.reserved lba below
  exact ⟨sector.trans oldSector, log.trans oldLog⟩

/-- A device failure stopped the volume. What it will be mounted as again agrees with what it
was, but for some clusters. -/
structure Stopped (start : Nat) (touched : Nat → Prop) (before after : Store) : Prop where
  failed : after.volume.failed = true
  unreliable : ¬before.disk.Reliable
  kept : Kept start before after
  agrees : before.view.AgreesOff touched after.deviceView

theorem Stopped.after (stopped : Stopped start touched second third)
    (kept : Kept start first second) (agrees : first.view.AgreesOff touched second.view) :
    Stopped start touched first third :=
  ⟨stopped.failed, fun reliable => stopped.unreliable (kept.reliable reliable),
    kept.trans stopped.kept, agrees.trans stopped.agrees⟩

theorem Stopped.mono {before after : Store} (stopped : Stopped start touched before after)
    (inside : ∀ cluster, touched cluster → wider cluster) : Stopped start wider before after :=
  { stopped with agrees := stopped.agrees.mono inside }

/-! ### Writing sectors -/

theorem check_of_working (working : store.volume.failed = false) :
    check store = (.ok (), store) := by
  rw [check, Program.run_reads, Volume.check, if_neg (by rw [working]; decide)]

theorem writeSector_meets (working : store.volume.failed = false) (lba : Nat) {data : List UInt8}
    (fits : data.length = sectorSize) :
    (writeSector lba data).Meets store
      (fun _ after => after = { store with disk := store.disk.put lba (Sector.of data) })
      (fun _ after => after.volume = { store.volume with failed := true } ∧
        after.disk = store.disk.refuse lba ∧
        (store.disk.Reliable → store.disk.capacity ≤ lba)) := by
  refine .step (check_of_working working) ?_
  rw [dif_pos fits, Sector.of_eq fits]
  rcases store.disk.write_cases lba ⟨data, fits⟩ with performed | ⟨refused, outside⟩
  · exact .of_ok (by rw [putSector, performed]) rfl
  · exact .of_error (by rw [putSector, refused]) ⟨rfl, rfl, outside⟩

/-- Some writes were performed up to one that failed. -/
structure Interrupted (writes : List (Nat × Sector)) (before after : Store) : Prop where
  volume : after.volume = { before.volume with failed := true }
  progress : ∃ done failed rest, writes = done ++ failed :: rest ∧
    after.disk = (before.disk.putAll done).refuse failed.1 ∧
    (before.disk.Reliable → before.disk.capacity ≤ failed.1)

namespace Interrupted

variable {writes : List (Nat × Sector)} {before after : Store}
  (interrupted : Interrupted writes before after)

include interrupted

theorem capacity : after.disk.capacity = before.disk.capacity := by
  obtain ⟨_, _, _, _, disk, _⟩ := interrupted.progress
  rw [disk]
  exact Disk.putAll_capacity ..

theorem faults : after.disk.faults = before.disk.faults := by
  obtain ⟨_, _, _, _, disk, _⟩ := interrupted.progress
  rw [disk]
  exact Disk.putAll_faults ..

theorem torn : before.disk.Torn writes after.disk := by
  obtain ⟨done, failed, _, split, disk, _⟩ := interrupted.progress
  rw [disk, split]
  exact (before.disk.torn_putAll done).mono (subset_append_left ..)

/-- Writes inside the device stop only because the device failed. -/
theorem unreliable (inside : ∀ write ∈ writes, write.1 < before.disk.capacity) :
    ¬before.disk.Reliable := by
  obtain ⟨_, failed, _, split, _, outside⟩ := interrupted.progress
  intro reliable
  refine Nat.not_lt.mpr (outside reliable) (inside failed ?_)
  rw [split]
  exact mem_append_right _ mem_cons_self

end Interrupted

/-- A loop that writes one sector in every turn. What a turn writes may depend on the sectors
that were not written before. -/
theorem forEach_writes {β : Type} {items : List β} {body : β → Driver Unit} (lba : β → Nat)
    (data : β → List UInt8) (working : store.volume.failed = false)
    (fits : ∀ item ∈ items, (data item).length = sectorSize)
    (bodies : ∀ done item rest, items = done ++ item :: rest → ∀ disk : Disk,
      disk.capacity = store.disk.capacity →
      (∀ other, other ∉ done.map lba → disk.sector other = store.disk.sector other) →
      body item { store with disk := disk } =
        writeSector (lba item) (data item) { store with disk := disk }) :
    (Program.forEach items body).Meets store (fun _ after => after = { store with
        disk := store.disk.putAll (items.map fun item => (lba item, Sector.of (data item))) })
      (fun _ after =>
        Interrupted (items.map fun item => (lba item, Sector.of (data item))) store after) := by
  induction items generalizing store with
  | nil => rfl
  | cons item rest ih =>
    have first := writeSector_meets working (lba item) (fits item mem_cons_self)
    refine .bind (.of_eq (bodies [] item rest rfl store.disk rfl fun _ _ => rfl)
      (first.mono (fun _ _ same => same) ?_)) ?_
    · rintro _ after ⟨volume, disk, outside⟩
      exact ⟨volume, [], _, _, rfl, disk, outside⟩
    · rintro _ _ rfl
      have others := ih
        (show ({ store with disk := store.disk.put (lba item) (Sector.of (data item)) } :
          Store).volume.failed = false from working)
        (forall_mem_cons.mp fits).2
        (fun done other later split disk capacity same => by
          refine bodies (item :: done) other later (by rw [split]; rfl) disk capacity
            fun sector away => ?_
          rw [map_cons, mem_cons, not_or] at away
          rw [same sector away.2, Disk.put_sector_of_ne _ _ away.1])
      refine others.mono (fun _ _ same => same) ?_
      rintro _ after ⟨volume, done, failed, later, split, disk, outside⟩
      exact ⟨volume, (lba item, Sector.of (data item)) :: done, failed, later,
        by rw [map_cons, split]; rfl, disk, outside⟩

/-! ### Changing an entry -/

/-- A volume that works before and after a change to its clusters. -/
structure Moved (start limit : Nat) (before after : Store) : Prop where
  ready : Ready start limit after
  kept : Kept start before after
  quiet : Quiet before after

/-- The copies and sectors of the table that are written when an entry changes. -/
def Layout.flushed (layout : Layout) (cluster : Nat) : List (Nat × Nat) :=
  (List.range layout.fats).flatMap fun copy =>
    if !layout.mirrored && copy != layout.active then []
    else (layout.kind.entrySectors cluster).map fun index => (copy, index)

theorem Kind.mem_entrySectors :
    index ∈ kind.entrySectors cluster ↔ kind.entryOffset cluster / sectorSize ≤ index ∧
      index ≤ (kind.entryOffset cluster + kind.entrySize - 1) / sectorSize := by
  simp only [Kind.entrySectors, mem_range'_1]
  omega

theorem Layout.mem_flushed :
    part ∈ layout.flushed cluster ↔ part.1 < layout.fats ∧
      (layout.mirrored = true ∨ part.1 = layout.active) ∧
      part.2 ∈ layout.kind.entrySectors cluster := by
  obtain ⟨copy, _⟩ := part
  simp only [flushed, mem_flatMap, mem_range]
  constructor
  · rintro ⟨other, below, member⟩
    by_cases skip : (!layout.mirrored && other != layout.active) = true
    · rw [if_pos skip] at member
      cases member
    · rw [if_neg skip] at member
      obtain ⟨_, found, same⟩ := mem_map.mp member
      cases same
      refine ⟨below, ?_, found⟩
      cases mirrored : layout.mirrored with
      | true => exact Or.inl rfl
      | false => simpa [mirrored] using skip
  · rintro ⟨below, used, found⟩
    refine ⟨copy, below, ?_⟩
    have keep : ¬(!layout.mirrored && copy != layout.active) = true := by
      rcases used with mirrored | active
      · simp [mirrored]
      · simp [active]
    rw [if_neg keep]
    exact mem_map_of_mem found

/-- The sectors that are written with an entry are sectors of the table. -/
theorem Layout.Placed.flushed_lt (placed : layout.Placed start limit)
    (valid : layout.valid cluster = true) (member : part ∈ layout.flushed cluster) :
    part.2 < layout.fatSectors := by
  have fits := placed.entry_fits valid
  have last := (Kind.mem_entrySectors.mp (Layout.mem_flushed.mp member).2.2).2
  have small : 0 < layout.kind.entrySize := by cases layout.kind <;> decide
  unfold sectorSize at *
  omega

/-- The store after an entry is changed in the cache only. -/
def Store.cached (store : Store) (cluster value : Nat) : Store :=
  { store with volume := { store.volume with
    fat := store.volume.kind.setEntry store.volume.fat cluster value } }

theorem set_eq (working : store.volume.failed = false) (valid : store.volume.valid cluster = true)
    (fits : store.volume.kind.entryOffset cluster + store.volume.kind.entrySize ≤
      store.volume.fat.length) (value : Nat) :
    set cluster value store =
      Program.forEach (store.volume.flushed cluster) (fun part => flush part.1 part.2)
        (store.cached cluster value) := by
  rw [Layout.flushed, Program.forEach_flatMap, set, Program.bind_of_ok (check_of_working working)]
  simp only [Program.gets_bind_run, if_pos valid, if_pos fits, Program.modify_bind_run]
  refine congrArg (fun body => Program.forEach (List.range store.volume.fats) body _) ?_
  funext copy
  by_cases skip : (!store.volume.mirrored && copy != store.volume.active) = true
  · rw [if_pos skip, if_pos skip]
    rfl
  · rw [if_neg skip, if_neg skip, Program.forEach_map]

/-- Sectors before the fixed root do not matter to a view. -/
theorem Layout.Placed.view_congr (placed : layout.Placed start limit) (fat : List UInt8)
    {before after : Disk}
    (same : ∀ lba, layout.rootLba ≤ lba → after.sector lba = before.sector lba) :
    layout.view fat after = layout.view fat before := by
  have root : after.contents layout.rootLbas = before.contents layout.rootLbas :=
    Disk.contents_congr fun lba member => same lba (placed.root_region member).1
  have data : ∀ cluster, layout.valid cluster = true →
      after.contents (layout.clusterLbas cluster) = before.contents (layout.clusterLbas cluster) :=
    fun cluster valid => Disk.contents_congr fun lba member =>
      same lba (Nat.le_trans placed.rootLba_le_dataLba (placed.data_region valid member).1)
  unfold Layout.view
  rw [root]
  congr 1
  funext cluster
  by_cases valid : layout.valid cluster = true
  · rw [if_pos valid, if_pos valid, data cluster valid]
  · rw [if_neg valid, if_neg valid]

/-- A sector of the table away from an entry is not changed with it. -/
theorem Kind.slice_setEntry_of_notMem {fat : List UInt8}
    (fits : kind.entryOffset cluster + kind.entrySize ≤ fat.length) (value : Nat)
    (away : index ∉ kind.entrySectors cluster) :
    slice (kind.setEntry fat cluster value) (sectorSize * index) sectorSize =
      slice fat (sectorSize * index) sectorSize := by
  rw [Kind.mem_entrySectors] at away
  refine ext_getElem? fun position => ?_
  rw [getElem?_slice, getElem?_slice]
  by_cases inside : position < sectorSize
  · rw [if_pos inside, if_pos inside, Kind.getElem?_setEntry_of_outside fits value]
    unfold sectorSize at *
    omega
  · rw [if_neg inside, if_neg inside]

section Entry

variable {store : Store} {cluster : Nat}

/-- What is written to a sector of a copy of the table when an entry changes. -/
def Volume.entryWrite (volume : Volume) (cluster value : Nat) (part : Nat × Nat) : Nat × Sector :=
  (volume.fatLba + part.1 * volume.fatSectors + part.2,
    Sector.of (slice (volume.kind.setEntry volume.fat cluster value) (part.2 * sectorSize)
      sectorSize))

/-- All that is written when an entry changes. -/
def Volume.entryWrites (volume : Volume) (cluster value : Nat) : List (Nat × Sector) :=
  (volume.flushed cluster).map (volume.entryWrite cluster value)

section

variable (ready : Ready start limit store) (valid : store.volume.valid cluster = true)
include ready valid

theorem Ready.entry_fits :
    store.volume.kind.entryOffset cluster + store.volume.kind.entrySize ≤
      store.volume.fat.length := by
  rw [ready.length_fat]
  exact ready.placed.entry_fits valid

theorem Ready.entryWrites_region (member : write ∈ store.volume.entryWrites cluster value) :
    store.volume.fatLba ≤ write.1 ∧ write.1 < store.volume.rootLba := by
  obtain ⟨part, found, rfl⟩ := mem_map.mp member
  refine ready.placed.fat_region (Layout.mem_flushed.mp found).1 ?_
  exact Layout.mem_fatLbas.mpr ⟨part.2, ready.placed.flushed_lt valid found, rfl⟩

end

section

variable (placed : volume.Placed start limit)
  (table : volume.fat.length = volume.fatSectors * sectorSize) (valid : volume.valid cluster = true)
include placed table valid

/-- What is written to a sector of a copy of the table. -/
theorem Volume.entryWrites_sector (member : write ∈ volume.entryWrites cluster value)
    (below : index < volume.fatSectors)
    (here : write.1 = volume.fatLba + copy * volume.fatSectors + index) :
    (write.2.val = slice (volume.kind.setEntry volume.fat cluster value) (sectorSize * index)
      sectorSize) ∧ index ∈ volume.kind.entrySectors cluster := by
  obtain ⟨part, found, rfl⟩ := mem_map.mp member
  have inside := placed.flushed_lt valid found
  have same : part.1 = copy :=
    Layout.copies_disjoint (Layout.mem_fatLbas.mpr ⟨part.2, inside, rfl⟩)
      (Layout.mem_fatLbas.mpr ⟨index, below, here⟩)
  have place : volume.fatLba + part.1 * volume.fatSectors + part.2 =
      volume.fatLba + copy * volume.fatSectors + index := here
  have position : part.2 = index := by
    rw [same] at place
    omega
  have fits : volume.kind.entryOffset cluster + volume.kind.entrySize ≤ volume.fat.length := by
    rw [table]
    exact placed.entry_fits valid
  have whole : (slice (volume.kind.setEntry volume.fat cluster value)
      (part.2 * sectorSize) sectorSize).length = sectorSize := by
    refine length_slice ?_
    rw [Kind.length_setEntry fits, table, ← Nat.succ_mul]
    exact Nat.mul_le_mul_right _ inside
  refine ⟨?_, position ▸ (Layout.mem_flushed.mp found).2.2⟩
  rw [Volume.entryWrite, Sector.of_val whole, position, Nat.mul_comm]

/-- A copy of the table on the device after all sectors of a changed entry are written. -/
theorem Volume.contents_entryWrites (value : Nat) (present : copy < volume.fats)
    (used : volume.mirrored = true ∨ copy = volume.active)
    (synced : disk.contents (volume.fatLbas copy) = volume.fat) :
    (disk.putAll (volume.entryWrites cluster value)).contents (volume.fatLbas copy) =
      volume.kind.setEntry volume.fat cluster value := by
  have fits : volume.kind.entryOffset cluster + volume.kind.entrySize ≤ volume.fat.length := by
    rw [table]
    exact placed.entry_fits valid
  refine Disk.contents_eq ?_ fun index lba found => ?_
  · rw [Kind.length_setEntry fits, table, Layout.length_fatLbas, Nat.mul_comm]
  · have below : index < volume.fatSectors := by
      have inside := (List.getElem?_eq_some_iff.mp found).1
      rw [Layout.length_fatLbas] at inside
      exact inside
    have place := found
    rw [Layout.getElem?_fatLbas below] at place
    cases place
    by_cases flushed : index ∈ volume.kind.entrySectors cluster
    · have written : (copy, index) ∈ volume.flushed cluster :=
        Layout.mem_flushed.mpr ⟨present, used, flushed⟩
      have member : volume.entryWrite cluster value (copy, index) ∈
          volume.entryWrites cluster value := mem_map_of_mem written
      have bytes := (entryWrites_sector placed table valid member below rfl).1
      refine (congrArg Subtype.val (disk.putAll_sector_map _ _ written
        fun other found same => Subtype.ext ?_)).trans bytes
      exact (entryWrites_sector placed table valid (mem_map_of_mem found) below same).1.trans
        bytes.symm
    · rw [Disk.putAll_sector_of_notMem, Kind.slice_setEntry_of_notMem fits value flushed, ← synced,
        Disk.slice_contents _ found]
      intro member
      obtain ⟨_, written, same⟩ := mem_map.mp member
      exact flushed (entryWrites_sector placed table valid written below same).2

end

section

variable (ready : Ready start limit store) (valid : store.volume.valid cluster = true)
include ready valid

/-- The table on the device when the writes of a changed entry were interrupted. -/
theorem Ready.mixed_of_torn (torn : store.disk.Torn (store.volume.entryWrites cluster value) disk) :
    Kind.Mixed store.volume.fat (store.volume.kind.setEntry store.volume.fat cluster value)
      (disk.contents (store.volume.fatLbas store.volume.active)) := by
  have place : ∀ position, byteAt (disk.contents (store.volume.fatLbas store.volume.active))
      position =
      byteAt (slice (disk.contents (store.volume.fatLbas store.volume.active))
        (sectorSize * (position / sectorSize)) sectorSize) (position % sectorSize) := by
    intro position
    rw [byteAt_slice _ _ (Nat.mod_lt _ (by decide)), Nat.div_add_mod]
  intro position
  rw [place]
  by_cases below : position / sectorSize < store.volume.fatSectors
  · have small : position % sectorSize < sectorSize := Nat.mod_lt _ (by decide)
    have found : (store.volume.fatLbas store.volume.active)[position / sectorSize]? = _ :=
      Layout.getElem?_fatLbas below
    rw [disk.slice_contents found]
    rcases torn (store.volume.fatLba + store.volume.active * store.volume.fatSectors +
      position / sectorSize) with same | member
    · refine Or.inl ?_
      rw [same, ← store.disk.slice_contents found, byteAt_slice _ _ small, Nat.div_add_mod,
        ready.synced, Store.deviceFat]
    · refine Or.inr ?_
      rw [(Volume.entryWrites_sector ready.placed ready.length_fat valid member below rfl).1,
        byteAt_slice _ _ small, Nat.div_add_mod]
  · have far : store.volume.fatSectors * sectorSize ≤ position := by
      unfold sectorSize at *
      omega
    rw [← place, byteAt_of_length_le, byteAt_of_length_le (by rw [ready.length_fat]; exact far)]
    · exact Or.inl rfl
    · rw [Disk.length_contents, Layout.length_fatLbas, Nat.mul_comm]
      exact far

theorem Ready.notMem_entryWrites (value : Nat)
    (away : lba < store.volume.fatLba ∨ store.volume.rootLba ≤ lba) :
    lba ∉ (store.volume.entryWrites cluster value).map Prod.fst := by
  intro member
  obtain ⟨_, written, rfl⟩ := mem_map.mp member
  have bounds := ready.entryWrites_region valid written
  omega

/-- The table with a changed entry links as the table before, but for that entry. -/
theorem Ready.entry_setEntry (small : value < store.volume.kind.modulus) :
    store.volume.kind.entry (store.volume.kind.setEntry store.volume.fat cluster value) =
      Function.update (store.volume.kind.entry store.volume.fat) cluster value := by
  funext other
  by_cases here : other = cluster
  · rw [here, update_self, Kind.entry_setEntry_self (ready.entry_fits valid),
      Nat.mod_eq_of_lt small]
  · rw [update_of_ne here, Kind.entry_setEntry_of_ne (ready.entry_fits valid) value here]

end

/-- Writes behind the reserved sectors leave a volume working if the cached table is the written
one. -/
theorem Ready.moved_writes (ready : Ready start limit store) {fat : List UInt8}
    {writes : List (Nat × Sector)}
    (synced : fat = (store.disk.putAll writes).contents (store.volume.fatLbas store.volume.active))
    (behind : ∀ lba < store.volume.fatLba, lba ∉ writes.map Prod.fst) :
    Moved start limit store ⟨store.disk.putAll writes, { store.volume with fat := fat }⟩ where
  ready :=
    { placed := ready.placed
      inside := by
        rw [Disk.putAll_capacity]
        exact ready.inside
      synced := synced
      working := ready.working }
  kept :=
    { layout := rfl
      capacity := Disk.putAll_capacity ..
      faults := Disk.putAll_faults ..
      boot := Disk.putAll_sector_of_notMem _ (behind start ready.placed.reserved) }
  quiet :=
    { hint := rfl
      freeCount := rfl
      hintsInvalid := rfl
      reserved := by
        intro lba below
        refine ⟨Disk.putAll_sector_of_notMem _ (behind lba below), ?_⟩
        rw [Disk.putAll_log, mem_append, mem_reverse]
        exact or_iff_right (behind lba below) }

/-- The store after an entry is changed in the cache and on the device. -/
def Store.withEntry (store : Store) (cluster value : Nat) : Store :=
  { store.cached cluster value with
    disk := store.disk.putAll (store.volume.entryWrites cluster value) }

section

variable (ready : Ready start limit store) (valid : store.volume.valid cluster = true)
include ready valid

theorem Ready.moved_withEntry (value : Nat) :
    Moved start limit store (store.withEntry cluster value) :=
  ready.moved_writes (Volume.contents_entryWrites ready.placed ready.length_fat valid value
    ready.placed.active (Or.inr rfl) ready.synced.symm).symm
    fun _ below => ready.notMem_entryWrites valid value (Or.inl below)

theorem Ready.view_withEntry (small : value < store.volume.kind.modulus) :
    (store.withEntry cluster value).view = store.view.link cluster value := by
  have same : store.volume.view store.volume.fat
      (store.disk.putAll (store.volume.entryWrites cluster value)) = store.view :=
    ready.placed.view_congr store.volume.fat fun lba above =>
      Disk.putAll_sector_of_notMem store.disk
        (ready.notMem_entryWrites valid value (Or.inr above))
  have entries := ready.entry_setEntry valid small
  simp only [Store.view, Layout.view, View.mk.injEq] at same
  simp only [Store.view, Store.withEntry, Store.cached, Layout.view, View.link, View.mk.injEq]
  exact ⟨entries, same.2⟩

theorem Ready.stopped_of_interrupted {after : Store}
    (interrupted : Interrupted (store.volume.entryWrites cluster value)
      (store.cached cluster value) after) :
    Stopped start (· = cluster) store after := by
  have layout : after.volume.toLayout = store.volume.toLayout := by
    rw [interrupted.volume]
    rfl
  have same : ∀ lba, lba < store.volume.fatLba ∨ store.volume.rootLba ≤ lba →
      after.disk.sector lba = store.disk.sector lba := fun lba away =>
    interrupted.torn.of_notMem (ready.notMem_entryWrites valid value away)
  have congr := ready.placed.view_congr store.volume.fat fun lba above => same lba (Or.inr above)
  simp only [Layout.view, View.mk.injEq] at congr
  have mixed := ready.mixed_of_torn valid interrupted.torn
  refine ⟨by rw [interrupted.volume], ?_, ⟨layout, interrupted.capacity, interrupted.faults,
    same start (Or.inl ready.placed.reserved)⟩, ?_, ?_, ?_⟩
  · refine interrupted.unreliable fun write member => ?_
    have bounds := ready.entryWrites_region valid member
    have inside := ready.inside
    have room := ready.placed.clusters
    have order := ready.placed.rootLba_le_dataLba
    show write.1 < store.disk.capacity
    omega
  · intro other different
    simp only [Store.deviceView, Store.deviceFat, layout]
    exact Kind.entry_of_mixed (ready.entry_fits valid) mixed different
  · intro other _
    simp only [Store.deviceView, layout]
    exact congrFun congr.2.1 other
  · simp only [Store.deviceView, layout]
    exact congr.2.2

end

/-- Changing an entry writes the sectors it touches, in all copies of the table that are used. -/
theorem set_writes (placed : store.volume.Placed start limit)
    (table : store.volume.fat.length = store.volume.fatSectors * sectorSize)
    (working : store.volume.failed = false) (valid : store.volume.valid cluster = true)
    (value : Nat) :
    (set cluster value).Meets store (fun _ after => after = store.withEntry cluster value)
      (fun _ after =>
        Interrupted (store.volume.entryWrites cluster value)
          (store.cached cluster value) after) := by
  have fits : store.volume.kind.entryOffset cluster + store.volume.kind.entrySize ≤
      store.volume.fat.length := by
    rw [table]
    exact placed.entry_fits valid
  have inside : ∀ part ∈ store.volume.flushed cluster,
      part.2 * sectorSize + sectorSize ≤
        (store.volume.kind.setEntry store.volume.fat cluster value).length := by
    intro part member
    rw [Kind.length_setEntry fits, table, ← Nat.succ_mul]
    exact Nat.mul_le_mul_right _ (placed.flushed_lt valid member)
  refine .of_eq (set_eq working valid fits value) (forEach_writes
    (fun part : Nat × Nat => store.volume.fatLba + part.1 * store.volume.fatSectors + part.2)
    (fun part => slice (store.volume.kind.setEntry store.volume.fat cluster value)
      (part.2 * sectorSize) sectorSize)
    (show (store.cached cluster value).volume.failed = false from working)
    (fun part member => length_slice (inside part member))
    (fun done part rest split disk _ _ => ?_))
  have member : part ∈ store.volume.flushed cluster := by
    rw [split]
    exact mem_append_right _ mem_cons_self
  simp only [flush, Store.cached, Program.gets_bind_run, slice?_of_le (inside part member)]
  rfl

/-- Changing an entry changes one link; if the device fails, all other links are still there. -/
theorem set_meets (ready : Ready start limit store) (valid : store.volume.valid cluster = true)
    (small : value < store.volume.kind.modulus) :
    (set cluster value).Meets store
      (fun _ after => Moved start limit store after ∧ after.view = store.view.link cluster value)
      (fun _ after => Stopped start (· = cluster) store after) := by
  refine (set_writes ready.placed ready.length_fat ready.working valid value).mono ?_
    fun _ _ interrupted => ready.stopped_of_interrupted valid interrupted
  rintro _ _ rfl
  exact ⟨ready.moved_withEntry valid value, ready.view_withEntry valid small⟩

end Entry

/-! ### Changing what is behind the table -/

section Region

variable {store : Store} {writes : List (Nat × Sector)}

theorem notMem_of_region {bound : Nat} (region : ∀ write ∈ writes, bound ≤ write.1)
    (below : lba < bound) : lba ∉ writes.map Prod.fst := by
  intro member
  obtain ⟨write, written, rfl⟩ := mem_map.mp member
  exact Nat.not_le.mpr below (region write written)

variable (ready : Ready start limit store)
include ready

theorem Ready.fatLbas_lt
    (member : lba ∈ store.volume.fatLbas store.volume.active) : lba < store.volume.rootLba :=
  (ready.placed.fat_region ready.placed.active member).2

/-- Writes behind the table leave a volume working. -/
theorem Ready.moved_putAll (region : ∀ write ∈ writes, store.volume.rootLba ≤ write.1) :
    Moved start limit store { store with disk := store.disk.putAll writes } := by
  refine ready.moved_writes ?_ fun lba below =>
    notMem_of_region region (Nat.lt_of_lt_of_le below ready.placed.fatLba_le_rootLba)
  refine ready.synced.trans (Disk.contents_congr fun lba member => ?_).symm
  exact Disk.putAll_sector_of_notMem _ (notMem_of_region region (ready.fatLbas_lt member))

/-- Interrupted writes behind the table leave the table as it was. -/
theorem Ready.deviceView_of_interrupted
    (region : ∀ write ∈ writes, store.volume.rootLba ≤ write.1) {after : Store}
    (interrupted : Interrupted writes store after) :
    Kept start store after ∧ after.deviceView = store.volume.view store.volume.fat after.disk := by
  have layout : after.volume.toLayout = store.volume.toLayout := by rw [interrupted.volume]
  refine ⟨⟨layout, interrupted.capacity, interrupted.faults, interrupted.torn.of_notMem ?_⟩, ?_⟩
  · exact notMem_of_region region
      (Nat.lt_of_lt_of_le ready.placed.reserved ready.placed.fatLba_le_rootLba)
  · have table : after.disk.contents (store.volume.fatLbas store.volume.active) =
        store.deviceFat := Disk.contents_congr fun lba member =>
      interrupted.torn.of_notMem (notMem_of_region region (ready.fatLbas_lt member))
    rw [Store.deviceView, Store.deviceFat, layout, table, ready.synced]

end Region

section Cluster

variable {store : Store} {cluster : Nat} {data : List UInt8}

/-- What is written to the device when a cluster changes. -/
def Layout.clusterWrites (layout : Layout) (cluster : Nat) (data : List UInt8) :
    List (Nat × Sector) :=
  (List.range layout.spc).map fun index =>
    (layout.lba cluster + index, Sector.of (slice data (index * sectorSize) sectorSize))

theorem Layout.fst_clusterWrites (layout : Layout) (cluster : Nat) (data : List UInt8) :
    (layout.clusterWrites cluster data).map Prod.fst = layout.clusterLbas cluster := by
  rw [clusterWrites, clusterLbas, map_map]
  rfl

theorem Layout.length_sector_slice (whole : data.length = layout.bytes)
    (below : index < layout.spc) :
    (slice data (index * sectorSize) sectorSize).length = sectorSize := by
  refine length_slice ?_
  rw [whole, Layout.bytes, ← Nat.succ_mul]
  exact Nat.mul_le_mul_right _ below

/-- The bytes of a cluster after its sectors are written. -/
theorem Layout.contents_clusterWrites (disk : Disk) (whole : data.length = layout.bytes) :
    (disk.putAll (layout.clusterWrites cluster data)).contents (layout.clusterLbas cluster) =
      data := by
  refine Disk.contents_eq ?_ fun index lba found => ?_
  · rw [whole, Layout.length_clusterLbas, Layout.bytes, Nat.mul_comm]
  · have below : index < layout.spc := by
      have inside := (List.getElem?_eq_some_iff.mp found).1
      rw [Layout.length_clusterLbas] at inside
      exact inside
    rw [Layout.getElem?_clusterLbas below] at found
    cases found
    have sector := disk.putAll_sector_map (layout.lba cluster + ·)
      (fun index => Sector.of (slice data (index * sectorSize) sectorSize))
      (mem_range.mpr below) fun other _ same => by rw [Nat.add_left_cancel same]
    rw [Layout.clusterWrites, sector, Sector.of_val (Layout.length_sector_slice whole below),
      Nat.mul_comm]

section

variable (ready : Ready start limit store) (valid : store.volume.valid cluster = true)
include ready valid

theorem Ready.clusterWrites_region (member : write ∈ store.volume.clusterWrites cluster data) :
    store.volume.dataLba ≤ write.1 ∧ write.1 < limit := by
  refine ready.placed.data_region valid ?_
  rw [← store.volume.fst_clusterWrites cluster data]
  exact mem_map_of_mem member

/-- Writes to the sectors of a cluster do not change what is outside it. -/
theorem Ready.agreesOff_of_sectors (same : ∀ lba, lba ∉ store.volume.clusterLbas cluster →
      disk.sector lba = store.disk.sector lba) :
    store.view.AgreesOff (· = cluster) (store.volume.view store.volume.fat disk) := by
  refine ⟨fun _ _ => rfl, fun other different => ?_, ?_⟩
  · simp only [Store.view, Layout.view]
    by_cases otherValid : store.volume.valid other = true
    · rw [if_pos otherValid, if_pos otherValid]
      refine Disk.contents_congr fun lba member => same lba fun shared => different ?_
      exact Layout.clusters_disjoint otherValid valid member shared
    · rw [if_neg otherValid, if_neg otherValid]
  · simp only [Store.view, Layout.view]
    refine congrArg (List.take _) (Disk.contents_congr fun lba member => same lba fun shared => ?_)
    have before := (ready.placed.root_region member).2
    have behind := (ready.placed.data_region valid shared).1
    omega

/-- Writing a cluster changes its contents and nothing else. -/
theorem writeCluster_meets (whole : data.length = store.volume.bytes) :
    (writeCluster cluster data).Meets store
      (fun _ after => Moved start limit store after ∧ after.view = store.view.store cluster data)
      (fun _ after => Stopped start (· = cluster) store after) := by
  have region : ∀ write ∈ store.volume.clusterWrites cluster data,
      store.volume.rootLba ≤ write.1 := fun write member =>
    Nat.le_trans ready.placed.rootLba_le_dataLba (ready.clusterWrites_region valid member).1
  have unfolded : writeCluster cluster data store =
      Program.forEach (List.range store.volume.spc) (fun index =>
        writeSector (store.volume.lba cluster + index) (slice data (index * sectorSize) sectorSize))
        store := by
    rw [writeCluster, Program.gets_bind_run, if_neg (by simp [valid, whole])]
  refine .of_eq unfolded ((forEach_writes (store.volume.lba cluster + ·)
    (fun index => slice data (index * sectorSize) sectorSize) ready.working
    (fun index below => Layout.length_sector_slice whole (mem_range.mp below))
    fun _ _ _ _ _ _ _ => rfl).mono ?_ ?_)
  · rintro _ _ rfl
    refine ⟨ready.moved_putAll region, ?_⟩
    have absent : ∀ lba, lba ∉ store.volume.clusterLbas cluster →
        lba ∉ (store.volume.clusterWrites cluster data).map Prod.fst := by
      intro lba away
      rw [Layout.fst_clusterWrites]
      exact away
    have agrees := ready.agreesOff_of_sectors valid fun lba away =>
      store.disk.putAll_sector_of_notMem (absent lba away)
    refine View.ext rfl (funext fun other => ?_) agrees.root
    by_cases here : other = cluster
    · rw [here, View.store_data_self]
      exact (if_pos valid).trans (Layout.contents_clusterWrites store.disk whole)
    · rw [View.store_data_of_ne _ _ here]
      exact agrees.data other here
  · intro _ _ interrupted
    obtain ⟨kept, view⟩ := ready.deviceView_of_interrupted region interrupted
    refine ⟨by rw [interrupted.volume], interrupted.unreliable fun write member => ?_, kept, ?_⟩
    · exact Nat.lt_of_lt_of_le (ready.clusterWrites_region valid member).2 ready.inside
    · rw [view]
      refine ready.agreesOff_of_sectors valid fun lba away => interrupted.torn.of_notMem ?_
      exact fun member => away ((store.volume.fst_clusterWrites cluster data) ▸ member)

end

end Cluster

end Mmurtl.Fat

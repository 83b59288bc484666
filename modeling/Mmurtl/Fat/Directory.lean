/-
This file relates directories on the device to their bytes: what loading a directory
returns, and what storing changed bytes does to a mounted volume.
-/

import Mmurtl.Fat.Allocation
import Mmurtl.Fat.Build

namespace Mmurtl.Fat

open Bytes List

variable {cluster lba index count begin : Nat} {indices : List Nat}

/-! ### Reading clusters -/

section Reading

variable {start limit : Nat} {store : Store}

theorem Store.readAll_eq {reason : FatError} {lbas : List Nat}
    (inside : ∀ lba ∈ lbas, lba < store.disk.capacity) :
    store.readAll reason lbas = .ok (store.disk.contents lbas) := by
  induction lbas with
  | nil => rfl
  | cons lba rest ih =>
    rw [readAll, Disk.read_of_lt (inside lba mem_cons_self)]
    rw [ih (forall_mem_cons.mp inside).2]
    rfl

variable (ready : Ready start limit store)
include ready

theorem Ready.readCluster_eq (valid : store.volume.valid cluster = true) :
    store.readCluster cluster = .ok (store.view.data cluster) := by
  rw [Store.readCluster, if_pos valid, Store.readAll_eq]
  · exact congrArg Outcome.ok (if_pos valid).symm
  · intro _ member
    exact Nat.lt_of_lt_of_le (ready.placed.data_region valid member).2 ready.inside

theorem Ready.readClusters_eq {chain : List Nat}
    (valid : ∀ cluster ∈ chain, store.volume.valid cluster = true) :
    store.readClusters chain = .ok (chain.flatMap store.view.data) := by
  induction chain with
  | nil => rfl
  | cons cluster rest ih =>
    rw [Store.readClusters, ready.readCluster_eq (valid cluster mem_cons_self),
      Outcome.ok_bind, ih (forall_mem_cons.mp valid).2]
    rfl

theorem Ready.readRoot_eq (reason : FatError) :
    store.readAll reason store.volume.rootLbas =
      .ok (store.disk.contents store.volume.rootLbas) := by
  refine Store.readAll_eq fun lba member => ?_
  have below := (ready.placed.root_region member).2
  have room := ready.placed.clusters
  have inside := ready.inside
  omega

end Reading

/-! ### Directories -/

/-- A directory has a chain, which is empty for the fixed root, and the bytes in it. -/
def Layout.DirData (layout : Layout) (view : View) (dir : Dir) (chain : List Nat)
    (bytes : List UInt8) : Prop :=
  if layout.fixedRoot dir then chain = [] ∧ bytes = view.root
  else chain ≠ [] ∧ layout.ChainOf view.entry dir.cluster chain ∧ bytes = chain.flatMap view.data

/-- All clusters and the fixed root have their full size. -/
structure View.Shaped (layout : Layout) (view : View) : Prop where
  data : ∀ cluster, layout.valid cluster = true → (view.data cluster).length = layout.bytes
  root : view.root.length = layout.rootEntries * entrySize

theorem Layout.shaped_view (layout : Layout) (fat : List UInt8) (disk : Disk) :
    (layout.view fat disk).Shaped layout := by
  refine ⟨fun cluster valid => ?_, ?_⟩
  · simp only [view, if_pos valid]
    rw [Disk.length_contents, length_clusterLbas, bytes, Nat.mul_comm]
  · simp only [view]
    rw [length_take, Disk.length_contents, rootLbas, length_map, length_range]
    unfold sectorSize entrySize
    omega

section DirData

variable {layout : Layout} {view : View} {dir : Dir} {chain : List Nat} {bytes : List UInt8}

theorem Layout.DirData.unique {otherChain : List Nat} {otherBytes : List UInt8}
    (data : layout.DirData view dir chain bytes)
    (other : layout.DirData view dir otherChain otherBytes) :
    chain = otherChain ∧ bytes = otherBytes := by
  unfold DirData at data other
  split at data
  · rename_i fixed
    rw [if_pos fixed] at other
    exact ⟨data.1.trans other.1.symm, data.2.trans other.2.symm⟩
  · rename_i fixed
    rw [if_neg fixed] at other
    have same := data.2.1.unique other.2.1
    exact ⟨same, by rw [data.2.2, other.2.2, same]⟩

/-- The parts of a directory that is a chain. -/
theorem Layout.DirData.chainOf (data : layout.DirData view dir chain bytes)
    (chained : layout.fixedRoot dir = false) :
    chain ≠ [] ∧ layout.ChainOf view.entry dir.cluster chain ∧ bytes = chain.flatMap view.data := by
  unfold DirData at data
  rwa [if_neg (by rw [chained]; decide)] at data

theorem Layout.DirData.of_chainOf (chained : layout.fixedRoot dir = false)
    (linked : layout.ChainOf view.entry dir.cluster chain) (nonempty : chain ≠ []) :
    layout.DirData view dir chain (chain.flatMap view.data) := by
  unfold DirData
  rw [if_neg (by rw [chained]; decide)]
  exact ⟨nonempty, linked, rfl⟩

theorem Layout.DirData.of_fixed (fixed : layout.fixedRoot dir = true) :
    layout.DirData view dir [] view.root := by
  unfold DirData
  rw [if_pos fixed]
  exact ⟨rfl, rfl⟩

section

variable (data : layout.DirData view dir chain bytes)
include data

theorem Layout.DirData.fixed (fixed : layout.fixedRoot dir = true) :
    chain = [] ∧ bytes = view.root := by
  unfold DirData at data
  rwa [if_pos fixed] at data

theorem Layout.DirData.chained_of_mem (member : cluster ∈ chain) :
    layout.fixedRoot dir = false := by
  by_contra fixed
  rw [(data.fixed (Bool.not_eq_false _ ▸ fixed)).1] at member
  cases member

/-- A directory without a cluster has no contents. -/
theorem Layout.DirData.cluster_ne_zero (chained : layout.fixedRoot dir = false) :
    dir.cluster ≠ 0 := by
  obtain ⟨nonempty, linked, _⟩ := data.chainOf chained
  exact fun none => nonempty (linked.eq_nil_iff.mpr none)

/-- A directory whose clusters are not touched keeps its contents. -/
theorem Layout.DirData.of_agrees {touched : Nat → Prop} {after : View}
    (agrees : view.AgreesOff touched after) (away : ∀ cluster ∈ chain, ¬touched cluster) :
    layout.DirData after dir chain bytes := by
  by_cases fixed : layout.fixedRoot dir = true
  · obtain ⟨rfl, rfl⟩ := data.fixed fixed
    rw [← agrees.root]
    exact .of_fixed fixed
  · have chained := Bool.eq_false_iff.mpr fixed
    obtain ⟨nonempty, linked, rfl⟩ := data.chainOf chained
    have same : chain.flatMap view.data = chain.flatMap after.data :=
      flatMap_congr fun cluster member =>
        (agrees.data cluster (away cluster member)).symm
    rw [same]
    exact .of_chainOf chained
      (linked.congr fun cluster member => agrees.entry cluster (away cluster member)) nonempty

theorem Layout.DirData.length (shaped : view.Shaped layout) :
    bytes.length = if layout.fixedRoot dir then layout.rootEntries * entrySize
      else chain.length * layout.bytes := by
  unfold DirData at data
  split at data
  · rename_i fixed
    rw [if_pos fixed, data.2, shaped.root]
  · rename_i fixed
    rw [if_neg fixed, data.2.2]
    exact length_flatMap fun cluster member => shaped.data cluster (data.2.1.valid member)

end

theorem Layout.entrySize_dvd_bytes (layout : Layout) : entrySize ∣ layout.bytes :=
  ⟨layout.spc * 16, by unfold bytes sectorSize entrySize; omega⟩

theorem Layout.DirData.entrySize_dvd (data : layout.DirData view dir chain bytes)
    (shaped : view.Shaped layout) : entrySize ∣ bytes.length := by
  rw [data.length shaped]
  split
  · exact Nat.dvd_mul_left ..
  · exact Nat.dvd_trans layout.entrySize_dvd_bytes (Nat.dvd_mul_left ..)

end DirData

section Loading

variable {start limit : Nat} {store : Store} {dir : Dir} {chain : List Nat} {bytes : List UInt8}

theorem Store.shaped (store : Store) : store.view.Shaped store.volume.toLayout :=
  Layout.shaped_view ..

/-- Loading a directory returns its chain and bytes, if it is not too long. -/
theorem Ready.loadDir_eq_ok_iff (ready : Ready start limit store) :
    store.loadDir dir = .ok (chain, bytes) ↔ store.volume.DirData store.view dir chain bytes ∧
        chain.length ≤ maxMetadata / store.volume.bytes := by
  rw [Store.loadDir, ready.check_eq, Outcome.ok_bind, Layout.DirData]
  by_cases fixed : store.volume.fixedRoot dir = true
  · rw [if_pos fixed, if_pos fixed, ready.readRoot_eq, Outcome.ok_bind, Outcome.pure_eq]
    constructor
    · intro same
      cases same
      exact ⟨⟨rfl, rfl⟩, Nat.zero_le _⟩
    · rintro ⟨⟨rfl, rfl⟩, _⟩
      rfl
  · rw [if_neg fixed, if_neg fixed]
    constructor
    · intro loaded
      obtain ⟨_, walked, rest⟩ := Outcome.bind_eq_ok.mp loaded
      obtain ⟨linked, short⟩ := ready.chain_eq_ok_iff.mp walked
      split at rest
      · cases rest
      · rename_i some_
        rw [ready.readClusters_eq fun cluster member => linked.valid member, Outcome.ok_bind]
          at rest
        cases rest
        exact ⟨⟨by simpa using some_, linked, rfl⟩, short⟩
    · rintro ⟨⟨some_, linked, rfl⟩, short⟩
      rw [ready.chain_eq_ok_iff.mpr ⟨linked, short⟩, Outcome.ok_bind, if_neg (by simpa using some_),
        ready.readClusters_eq fun cluster member => linked.valid member]
      rfl

theorem Store.readAll_safe (store : Store) (reason : FatError) (lbas : List Nat) :
    (store.readAll reason lbas).Safe fun data => data.length = sectorSize * lbas.length := by
  induction lbas with
  | nil => exact .pure rfl
  | cons lba rest ih =>
    rw [readAll]
    cases read : store.disk.read lba with
    | none => exact .error reason
    | some data =>
      have length : data.length = sectorSize := by
        rw [Disk.read, Option.ite_none_right_eq_some] at read
        cases read.2
        exact Disk.length_sector ..
      refine ih.bind fun others total => .pure ?_
      rw [length_append, length, total, length_cons, Nat.mul_succ, Nat.add_comm]

theorem Store.readClusters_safe (store : Store) (chain : List Nat) :
    (store.readClusters chain).Safe fun data =>
      data.length = chain.length * store.volume.bytes := by
  induction chain with
  | nil => exact .pure (Nat.zero_mul _).symm
  | cons cluster rest ih =>
    rw [readClusters, readCluster]
    have one : (if store.volume.valid cluster then
        store.readAll .diskReadFailed (store.volume.clusterLbas cluster)
        else .error .invalidCluster).Safe fun data => data.length = store.volume.bytes := by
      split
      · refine (store.readAll_safe ..).mono fun data length => ?_
        rw [length, Layout.length_clusterLbas, Nat.mul_comm]
        rfl
      · exact .error _
    refine one.bind fun data length => ih.bind fun others total => .pure ?_
    rw [length_append, length, total, length_cons, Nat.succ_mul, Nat.add_comm]

/-- The bytes of a directory fill its entries or its clusters. -/
structure Layout.Extent (layout : Layout) (dir : Dir) (chain : List Nat) (data : List UInt8) :
    Prop where
  fixed : layout.fixedRoot dir = true → data.length = layout.rootEntries * entrySize
  chained : layout.fixedRoot dir = false → data.length = chain.length * layout.bytes
  valid : ∀ cluster ∈ chain, layout.valid cluster = true

/-- What is known of a directory that was loaded. -/
structure Store.Loads (store : Store) (dir : Dir) (chain : List Nat) (data : List UInt8) : Prop
    extends store.volume.Extent dir chain data where
  working : store.volume.failed = false
  linked : store.volume.fixedRoot dir = false →
    store.volume.ChainOf store.view.entry dir.cluster chain
  used : ∀ cluster ∈ chain, store.view.entry cluster ≠ 0
  short : chain.length ≤ maxMetadata / store.volume.bytes

theorem Store.length_readRoot (store : Store) {data : List UInt8}
    (length : data.length = sectorSize * store.volume.rootLbas.length) :
    (data.take (store.volume.rootEntries * entrySize)).length =
      store.volume.rootEntries * entrySize := by
  have entries : store.volume.rootLbas.length =
      (store.volume.rootEntries * 32 + sectorSize - 1) / sectorSize := by
    rw [Layout.rootLbas, length_map, length_range]
  rw [length_take, length, entries]
  unfold entrySize sectorSize
  omega

/-- Loading a directory does not panic, whatever is on the device. -/
theorem loadDir_loads (loaded : store.volume.Loaded) (dir : Dir) :
    (store.loadDir dir).Safe fun loaded => store.Loads dir loaded.1 loaded.2 := by
  rw [Store.loadDir, Volume.check]
  by_cases failed : store.volume.failed = true
  · rw [if_pos failed]
    exact .error _
  rw [if_neg failed, Outcome.ok_bind]
  have working : store.volume.failed = false := Bool.eq_false_iff.mpr failed
  by_cases fixed : store.volume.fixedRoot dir = true
  · rw [if_pos fixed]
    refine (store.readAll_safe ..).bind fun data length => .pure ?_
    exact ⟨⟨fun _ => store.length_readRoot length,
      fun other => absurd fixed (by rw [other]; decide),
      forall_mem_nil _⟩, working, fun other => absurd fixed (by rw [other]; decide),
      forall_mem_nil _, Nat.zero_le _⟩
  rw [if_neg fixed]
  have walked : (store.volume.chain dir.cluster (maxMetadata / store.volume.bytes)).Safe
      fun chain => store.volume.ChainOf store.view.entry dir.cluster chain ∧
        chain.length ≤ maxMetadata / store.volume.bytes := by
    cases found : store.volume.chain dir.cluster (maxMetadata / store.volume.bytes) with
    | ok chain => exact .pure (Volume.chainOf_of_chain loaded found)
    | error reason => exact .error reason
    | panic => exact absurd found (Volume.chain_safe loaded _ _)
  refine walked.bind ?_
  rintro chain ⟨linked, short⟩
  by_cases empty : chain.isEmpty = true
  · rw [if_pos empty]
    exact .error _
  rw [if_neg empty]
  refine (store.readClusters_safe chain).bind fun data length => .pure ?_
  exact ⟨⟨fun other => absurd other fixed, fun _ => length, fun _ member => linked.valid member⟩,
    working, fun _ => linked, fun _ member => linked.entry_ne_zero member, short⟩

end Loading

/-! ### Storing directories -/

/-- The sectors of a directory. -/
def Layout.dirLbas (layout : Layout) (dir : Dir) (chain : List Nat) : List Nat :=
  if layout.fixedRoot dir then layout.rootLbas else chain.flatMap layout.clusterLbas

section Sectors

variable {layout : Layout} {start limit : Nat} (placed : layout.Placed start limit) {dir : Dir}
  {chain : List Nat}

theorem Layout.nodup_rootLbas (layout : Layout) : layout.rootLbas.Nodup :=
  List.Nodup.map (fun _ _ same => Nat.add_left_cancel same) nodup_range

theorem Layout.nodup_clusterLbas (layout : Layout) (cluster : Nat) :
    (layout.clusterLbas cluster).Nodup :=
  List.Nodup.map (fun _ _ same => Nat.add_left_cancel same) nodup_range

theorem Layout.nodup_dirLbas (layout : Layout) (dir : Dir) (distinct : chain.Nodup)
    (valid : ∀ cluster ∈ chain, layout.valid cluster = true) :
    (layout.dirLbas dir chain).Nodup := by
  unfold dirLbas
  split
  · exact layout.nodup_rootLbas
  · refine nodup_flatMap.mpr ⟨fun cluster _ => layout.nodup_clusterLbas cluster, ?_⟩
    refine distinct.imp_of_mem fun firstMember secondMember different => ?_
    exact fun lba inFirst inSecond => different
      (clusters_disjoint (valid _ firstMember) (valid _ secondMember) inFirst inSecond)

include placed

theorem Layout.Placed.dirLbas_region (valid : ∀ cluster ∈ chain, layout.valid cluster = true)
    (member : lba ∈ layout.dirLbas dir chain) : layout.rootLba ≤ lba ∧ lba < limit := by
  have order := placed.rootLba_le_dataLba
  have room := placed.clusters
  unfold dirLbas at member
  split at member
  · have bounds := placed.root_region member
    omega
  · obtain ⟨cluster, found, inside⟩ := mem_flatMap.mp member
    have bounds := placed.data_region (valid cluster found) inside
    omega

/-- Where the driver writes a sector of a directory that is a chain. -/
theorem Layout.Placed.getElem?_dirLbas (chain : List Nat) (chained : layout.fixedRoot dir = false)
    (index : Nat) :
    (layout.dirLbas dir chain)[index]? =
      chain[index * sectorSize / layout.bytes]?.map fun cluster =>
        layout.lba cluster + index * sectorSize % layout.bytes / sectorSize := by
  have positive := placed.spc_pos
  have quotient : index * sectorSize / layout.bytes = index / layout.spc :=
    Nat.mul_div_mul_right _ _ (by decide)
  have remainder : index * sectorSize % layout.bytes / sectorSize = index % layout.spc := by
    rw [bytes, Nat.mul_mod_mul_right, Nat.mul_div_cancel _ (by decide)]
  have small : index % layout.spc < layout.spc := Nat.mod_lt _ positive
  rw [dirLbas, chained, if_neg (by decide), quotient, remainder,
    getElem?_flatMap (fun cluster _ => length_clusterLbas cluster) positive]
  cases chain[index / layout.spc]? with
  | none => rfl
  | some cluster => exact getElem?_clusterLbas small

end Sectors

/-- The bytes of a directory's sectors, which for the fixed root may end behind its entries. -/
def Store.dirSectors (store : Store) (dir : Dir) (chain : List Nat) : List UInt8 :=
  store.disk.contents (store.volume.dirLbas dir chain)

section Storing

variable {start limit : Nat} {store : Store} {dir : Dir} {chain : List Nat}
  {old new : List UInt8}

theorem Store.dirSectors_eq (data : store.volume.DirData store.view dir chain old) :
    ∃ rest, store.dirSectors dir chain = old ++ rest ∧ rest.length < sectorSize ∧
      (store.volume.fixedRoot dir = false → rest = []) := by
  unfold Layout.DirData at data
  unfold Store.dirSectors Layout.dirLbas
  split at data
  · rename_i fixed
    rw [if_pos fixed, data.2]
    refine ⟨(store.disk.contents store.volume.rootLbas).drop (store.volume.rootEntries * entrySize),
      (take_append_drop ..).symm, ?_, fun chained => ?_⟩
    · rw [length_drop, Disk.length_contents, Layout.rootLbas, length_map, length_range]
      unfold sectorSize entrySize
      omega
    · rw [fixed] at chained
      cases chained
  · rename_i fixed
    rw [if_neg fixed, data.2.2, Disk.contents_flatMap]
    refine ⟨[], ?_, by decide, fun _ => rfl⟩
    rw [append_nil]
    refine flatMap_congr fun cluster member => ?_
    exact (if_pos (data.2.1.valid member)).symm

/-- The bytes of a directory as they stand in its sectors when it is changed. -/
structure Storable (store : Store) (dir : Dir) (chain : List Nat) (old new rest : List UInt8) :
    Prop where
  data : store.volume.DirData store.view dir chain old
  sectors : store.dirSectors dir chain = old ++ rest
  short : rest.length < sectorSize
  chained : store.volume.fixedRoot dir = false → rest = []
  length : new.length = old.length

theorem storable_of_dirData (data : store.volume.DirData store.view dir chain old)
    (length : new.length = old.length) : ∃ rest, Storable store dir chain old new rest := by
  obtain ⟨rest, sectors, short, chained⟩ := Store.dirSectors_eq data
  exact ⟨rest, data, sectors, short, chained, length⟩

namespace Storable

variable {rest : List UInt8} (storable : Storable store dir chain old new rest)

include storable

theorem total : (new ++ rest).length = sectorSize * (store.volume.dirLbas dir chain).length := by
  have whole : (store.dirSectors dir chain).length =
      sectorSize * (store.volume.dirLbas dir chain).length := Disk.length_contents ..
  rw [storable.sectors, length_append] at whole
  rw [length_append, storable.length, whole]

theorem valid : ∀ cluster ∈ chain, store.volume.valid cluster = true := by
  intro _ member
  have data := storable.data
  unfold Layout.DirData at data
  split at data
  · rw [data.1] at member
    cases member
  · exact data.2.1.valid member

theorem distinct : chain.Nodup := by
  have data := storable.data
  unfold Layout.DirData at data
  split at data
  · rw [data.1]
    exact nodup_nil
  · exact data.2.1.nodup

section

variable (found : (store.volume.dirLbas dir chain)[index]? = some lba)
include found

theorem slice_old :
    slice (old ++ rest) (index * sectorSize) sectorSize = (store.disk.sector lba).val := by
  rw [← storable.sectors, Store.dirSectors, Nat.mul_comm, Disk.slice_contents _ found]

theorem length_slice :
    (slice (new ++ rest) (index * sectorSize) sectorSize).length = sectorSize := by
  have below := (List.getElem?_eq_some_iff.mp found).1
  have total := storable.total
  refine Bytes.length_slice ?_
  rw [total, ← Nat.succ_mul, Nat.mul_comm]
  exact Nat.mul_le_mul_left _ below

/-- Every sector of a directory starts among its bytes. -/
theorem begin_le : index * sectorSize ≤ new.length := by
  have below := (List.getElem?_eq_some_iff.mp found).1
  have total := storable.total
  have short := storable.short
  rw [length_append] at total
  unfold sectorSize at *
  omega

/-- The bytes of a sector of the fixed root that its entries do not fill. -/
theorem patch_partial : patch (store.disk.sector lba).val 0
        (slice new (index * sectorSize) (min sectorSize (new.length - index * sectorSize))) =
      slice (new ++ rest) (index * sectorSize) sectorSize := by
  have sector := store.disk.length_sector lba
  have length := storable.length
  have count : (slice new (index * sectorSize)
      (min sectorSize (new.length - index * sectorSize))).length =
      min sectorSize (new.length - index * sectorSize) := by
    rw [slice, length_take, length_drop]
    omega
  refine ext_getElem? fun position => ?_
  rw [getElem?_patch (by omega), if_neg (Nat.not_lt_zero _), count, Nat.sub_zero,
    ← storable.slice_old found, getElem?_slice, getElem?_slice, getElem?_slice]
  by_cases inNew : position < 0 + min sectorSize (new.length - index * sectorSize)
  · rw [if_pos inNew, if_pos (by omega), if_pos (by omega), getElem?_append_left (by omega)]
  · rw [if_neg inNew]
    by_cases inside : position < sectorSize
    · rw [if_pos inside, if_pos inside, getElem?_append_right (by omega),
        getElem?_append_right (by omega), length]
    · rw [if_neg inside, if_neg inside]

end

omit storable in
/-- A sector that the entries fill is written from them alone. -/
theorem patch_whole (full : index * sectorSize + sectorSize ≤ new.length) :
    patch (List.replicate sectorSize 0) 0
        (slice new (index * sectorSize) (min sectorSize (new.length - index * sectorSize))) =
      slice (new ++ rest) (index * sectorSize) sectorSize := by
  have taken : min sectorSize (new.length - index * sectorSize) = sectorSize := by omega
  have length := Bytes.length_slice full
  rw [taken, patch, take_zero, nil_append, length, Nat.zero_add,
    drop_of_length_le (by rw [length_replicate]), append_nil, slice, slice,
    drop_append_of_le_length (by omega), take_append_of_le_length (by rw [length_drop]; omega)]

/-- Where the last sectors are not filled, the directory is the fixed root. -/
theorem fixed_of_partial (found : (store.volume.dirLbas dir chain)[index]? = some lba)
    (partial_ : ¬index * sectorSize + sectorSize ≤ new.length) :
    store.volume.fixedRoot dir = true := by
  by_contra chained
  have total := storable.total
  rw [storable.chained (Bool.eq_false_iff.mpr chained), append_nil] at total
  have below := (List.getElem?_eq_some_iff.mp found).1
  have room := Nat.mul_le_mul_left sectorSize (Nat.succ_le_of_lt below)
  rw [← total, Nat.mul_succ, Nat.mul_comm] at room
  exact partial_ room

/-- Writing a sector of a directory, on a device that has not changed in it. -/
theorem storeDirSector_eq (ready : Ready start limit store)
    (found : (store.volume.dirLbas dir chain)[index]? = some lba) {disk : Disk}
    (capacity : disk.capacity = store.disk.capacity)
    (same : disk.sector lba = store.disk.sector lba) :
    storeDirSector dir chain new index { store with disk := disk } =
      writeSector lba (slice (new ++ rest) (index * sectorSize) sectorSize)
        { store with disk := disk } := by
  have root : store.volume.fixedRoot dir = true → lba = store.volume.rootLba + index := by
    intro fixed
    have below := (List.getElem?_eq_some_iff.mp found).1
    rw [Layout.dirLbas, if_pos fixed] at found below
    rw [Layout.rootLbas, length_map, length_range] at below
    rw [Layout.rootLbas, getElem?_map, getElem?_range below] at found
    cases found
    rfl
  have target : ∀ bytes : List UInt8,
      (if store.volume.fixedRoot dir then writeSector (store.volume.rootLba + index) bytes
        else do
          let cluster ← .expect chain[index * sectorSize / store.volume.bytes]?
          writeSector (store.volume.lba cluster +
            index * sectorSize % store.volume.bytes / sectorSize) bytes : Driver Unit)
        { store with disk := disk } = writeSector lba bytes { store with disk := disk } := by
    intro bytes
    by_cases fixed : store.volume.fixedRoot dir = true
    · rw [if_pos fixed, root fixed]
    · rw [if_neg fixed]
      have place := ready.placed.getElem?_dirLbas chain (Bool.eq_false_iff.mpr fixed) index
      rw [found] at place
      cases cluster : chain[index * sectorSize / store.volume.bytes]? with
      | none =>
        rw [cluster] at place
        cases place
      | some cluster =>
        rw [cluster] at place
        cases place
        rfl
  rw [storeDirSector, Program.gets_bind_run,
    Program.bind_of_ok (Program.run_require (storable.begin_le found) _)]
  by_cases full : index * sectorSize + sectorSize ≤ new.length
  · rw [if_neg (by omega), Program.pure_bind_run]
    refine (target _).trans ?_
    rw [patch_whole full]
  · have fixed := storable.fixed_of_partial found full
    have read : (Program.reads fun other : Store => other.sector (store.volume.rootLba + index) :
        Driver (List UInt8)) { store with disk := disk } =
        (.ok (store.disk.sector lba).val, { store with disk := disk }) := by
      rw [Program.run_reads, ← root fixed, Store.sector_of_lt, same]
      rw [capacity]
      exact Nat.lt_of_lt_of_le (ready.placed.dirLbas_region storable.valid
        (mem_of_getElem? found)).2 ready.inside
    have positive : 0 < sectorSize := by decide
    rw [if_pos (by omega)]
    refine (Program.bind_of_ok read).trans ((target _).trans ?_)
    rw [storable.patch_partial found]

end Storable

/-- What is written when a range of sectors of a directory is stored. -/
def Layout.dirWrites (layout : Layout) (dir : Dir) (chain : List Nat) (bytes : List UInt8)
    (indices : List Nat) : List (Nat × Sector) :=
  indices.map fun index => ((layout.dirLbas dir chain)[index]?.getD 0,
    Sector.of (slice bytes (index * sectorSize) sectorSize))

/-- A change of a byte string inside a range. -/
structure Edit (old new : List UInt8) (begin count : Nat) : Prop where
  length : new.length = old.length
  fits : begin + count ≤ new.length
  outside : ∀ index, index < begin ∨ begin + count ≤ index → new[index]? = old[index]?

/-- The sectors that a range of bytes touches. -/
def touched (begin count : Nat) : List Nat :=
  List.range' (begin / sectorSize)
    ((begin + count + sectorSize - 1) / sectorSize - begin / sectorSize)

theorem mem_touched :
    index ∈ touched begin count ↔ begin / sectorSize ≤ index ∧
      index < (begin + count + sectorSize - 1) / sectorSize := by
  rw [touched, mem_range'_1]
  omega

namespace Storable

variable {rest : List UInt8} (storable : Storable store dir chain old new rest) {begin count : Nat}

include storable

theorem getElem?_of_touched (fits : begin + count ≤ new.length)
    (member : index ∈ touched begin count) :
    (store.volume.dirLbas dir chain)[index]? =
      some ((store.volume.dirLbas dir chain)[index]?.getD 0) := by
  have total := storable.total
  rw [length_append] at total
  have below : index < (store.volume.dirLbas dir chain).length := by
    have bounds := (mem_touched.mp member).2
    unfold sectorSize at *
    omega
  rw [List.getElem?_eq_getElem below]
  rfl

/-- Different sectors of a directory are different sectors of the device. -/
theorem notMem_lbas (fits : begin + count ≤ new.length) (inside : indices ⊆ touched begin count)
    (member : index ∈ touched begin count) (away : index ∉ indices) :
    (store.volume.dirLbas dir chain)[index]?.getD 0 ∉
      indices.map fun index => (store.volume.dirLbas dir chain)[index]?.getD 0 := by
  intro written
  obtain ⟨other, earlier, place⟩ := mem_map.mp written
  have found := storable.getElem?_of_touched fits member
  have otherFound := storable.getElem?_of_touched fits (inside earlier)
  rw [place] at otherFound
  have distinct := store.volume.nodup_dirLbas dir storable.distinct storable.valid
  have equal : other = index := (getElem?_inj
    (List.getElem?_eq_some_iff.mp otherFound).1 distinct).mp (otherFound.trans found.symm)
  exact away (equal ▸ earlier)

/-- Storing sectors of a directory is a loop of sector writes. -/
theorem storeSectors_writes (ready : Ready start limit store) (fits : begin + count ≤ new.length)
    (distinct : indices.Nodup) (inside : indices ⊆ touched begin count) :
    (Program.forEach indices (storeDirSector dir chain new)).Meets store
      (fun _ after => after = { store with
        disk := store.disk.putAll (store.volume.dirWrites dir chain (new ++ rest) indices) })
      (fun _ after => Interrupted
        (store.volume.dirWrites dir chain (new ++ rest) indices) store after) := by
  refine forEach_writes (fun index => (store.volume.dirLbas dir chain)[index]?.getD 0)
    (fun index => slice (new ++ rest) (index * sectorSize) sectorSize) ready.working
    (fun index member => storable.length_slice (storable.getElem?_of_touched fits (inside member)))
    fun done index later split disk capacity same => ?_
  rw [split] at distinct inside
  have member := inside (mem_append_right _ mem_cons_self)
  have away : index ∉ done := fun earlier =>
    (nodup_append.mp distinct).2.2 index earlier index mem_cons_self rfl
  exact storable.storeDirSector_eq ready (storable.getElem?_of_touched fits member) capacity
    (same _ (storable.notMem_lbas fits (fun other earlier =>
      inside (mem_append_left _ earlier)) member away))

theorem dirWrites_mem (fits : begin + count ≤ new.length) {write : Nat × Sector}
    (member : write ∈ store.volume.dirWrites dir chain (new ++ rest) (touched begin count)) :
    write.1 ∈ store.volume.dirLbas dir chain := by
  obtain ⟨_, inside, rfl⟩ := mem_map.mp member
  exact mem_of_getElem? (storable.getElem?_of_touched fits inside)

/-- The sectors of a directory after the changed ones are written. -/
theorem contents_dirWrites (edit : Edit old new begin count) :
    (store.disk.putAll
      (store.volume.dirWrites dir chain (new ++ rest) (touched begin count))).contents
        (store.volume.dirLbas dir chain) = new ++ rest := by
  have distinct := store.volume.nodup_dirLbas dir storable.distinct storable.valid
  refine Disk.contents_eq storable.total fun index lba found => ?_
  have injective : ∀ other, (store.volume.dirLbas dir chain)[other]? = some lba → other = index :=
    fun other otherFound => (getElem?_inj (List.getElem?_eq_some_iff.mp otherFound).1
      distinct).mp (otherFound.trans found.symm)
  by_cases member : index ∈ touched begin count
  · have sector := store.disk.putAll_sector_map
      (fun index => (store.volume.dirLbas dir chain)[index]?.getD 0)
      (fun index => Sector.of (slice (new ++ rest) (index * sectorSize) sectorSize)) member
      fun other otherMember same => by
        have otherFound := storable.getElem?_of_touched edit.fits otherMember
        simp only [found, Option.getD_some] at same
        rw [same] at otherFound
        rw [injective other otherFound]
    simp only [found, Option.getD_some] at sector
    rw [Layout.dirWrites, sector, Sector.of_val (storable.length_slice found), Nat.mul_comm]
  · rw [Disk.putAll_sector_of_notMem, ← storable.slice_old found, Nat.mul_comm]
    · refine ext_getElem? fun position => ?_
      rw [getElem?_slice, getElem?_slice]
      by_cases small : position < sectorSize
      · rw [if_pos small, if_pos small]
        have away := mt mem_touched.mpr member
        have same := edit.outside (sectorSize * index + position) (by
          unfold sectorSize at *
          omega)
        rw [getElem?_append, getElem?_append, same, storable.length]
      · rw [if_neg small, if_neg small]
    · intro written
      obtain ⟨_, inWrites, place⟩ := mem_map.mp written
      obtain ⟨other, otherMember, rfl⟩ := mem_map.mp inWrites
      have otherFound := storable.getElem?_of_touched edit.fits otherMember
      simp only at place
      rw [place] at otherFound
      exact member (injective other otherFound ▸ otherMember)

end Storable

/-- The bytes of a directory were replaced, and nothing else. -/
structure Rewritten (layout : Layout) (dir : Dir) (chain : List Nat) (bytes : List UInt8)
    (before after : View) : Prop where
  entry : after.entry = before.entry
  data : ∀ cluster, cluster ∉ chain → after.data cluster = before.data cluster
  root : layout.fixedRoot dir = false → after.root = before.root
  dirData : layout.DirData after dir chain bytes

theorem Storable.rewritten {rest : List UInt8} (storable : Storable store dir chain old new rest)
    (ready : Ready start limit store) (edit : Edit old new begin count) :
    Rewritten store.volume.toLayout dir chain new store.view
      (store.volume.view store.volume.fat (store.disk.putAll
        (store.volume.dirWrites dir chain (new ++ rest) (touched begin count)))) := by
  have contents := storable.contents_dirWrites edit
  have away : ∀ lba, lba ∉ store.volume.dirLbas dir chain →
      (store.disk.putAll (store.volume.dirWrites dir chain (new ++ rest)
        (touched begin count))).sector lba = store.disk.sector lba := by
    intro lba absent
    refine Disk.putAll_sector_of_notMem _ fun written => absent ?_
    obtain ⟨_, member, rfl⟩ := mem_map.mp written
    exact storable.dirWrites_mem edit.fits member
  have data := storable.data
  refine ⟨rfl, fun cluster absent => ?_, fun chained => ?_, ?_⟩
  · simp only [Store.view, Layout.view]
    by_cases valid : store.volume.valid cluster = true
    · rw [if_pos valid, if_pos valid]
      refine Disk.contents_congr fun lba member => away lba fun inside => ?_
      unfold Layout.dirLbas at inside
      split at inside
      · have behind := (ready.placed.data_region valid member).1
        have before := (ready.placed.root_region inside).2
        omega
      · obtain ⟨other, otherMember, shared⟩ := mem_flatMap.mp inside
        exact absent (Layout.clusters_disjoint valid (storable.valid other otherMember) member
          shared ▸ otherMember)
    · rw [if_neg valid, if_neg valid]
  · simp only [Store.view, Layout.view]
    refine congrArg (List.take _) (Disk.contents_congr fun lba member => away lba fun inside => ?_)
    rw [Layout.dirLbas, chained, if_neg (by decide)] at inside
    obtain ⟨other, otherMember, shared⟩ := mem_flatMap.mp inside
    have behind := (ready.placed.data_region (storable.valid other otherMember) shared).1
    have before := (ready.placed.root_region member).2
    omega
  · unfold Layout.DirData at data ⊢
    split at data
    · rename_i fixed
      rw [if_pos fixed]
      refine ⟨data.1, ?_⟩
      have length : new.length = store.volume.rootEntries * entrySize := by
        rw [storable.length, data.2, store.shaped.root]
      rw [Layout.dirLbas, if_pos fixed] at contents
      simp only [Layout.view]
      rw [contents, ← length, take_append_of_le_length (Nat.le_refl _),
        take_of_length_le (Nat.le_refl _)]
    · rename_i fixed
      rw [if_neg fixed]
      refine ⟨data.1, data.2.1, ?_⟩
      have chained := Bool.eq_false_iff.mpr fixed
      rw [storable.chained chained, append_nil] at contents ⊢
      rw [Layout.dirLbas, if_neg fixed, Disk.contents_flatMap] at contents
      refine contents.symm.trans ?_
      refine flatMap_congr fun cluster member => ?_
      exact (if_pos (data.2.1.valid member)).symm

/-- Storing a range of a directory replaces its bytes and nothing else. -/
theorem storeDir_meets (ready : Ready start limit store)
    (data : store.volume.DirData store.view dir chain old) (edit : Edit old new begin count) :
    (storeDir dir chain new begin count).Meets store (fun _ after => Moved start limit store after ∧
        Rewritten store.volume.toLayout dir chain new store.view after.view)
      (fun _ after => ∃ rest, Storable store dir chain old new rest ∧ Interrupted
        (store.volume.dirWrites dir chain (new ++ rest) (touched begin count)) store after) := by
  obtain ⟨rest, storable⟩ := storable_of_dirData data edit.length
  rw [storeDir, if_neg (by have := edit.fits; omega)]
  refine (storable.storeSectors_writes ready edit.fits nodup_range' (List.Subset.refl _)).mono
    ?_ fun _ after interrupted => ⟨rest, storable, interrupted⟩
  rintro _ _ rfl
  refine ⟨ready.moved_putAll fun write member => ?_, storable.rewritten ready edit⟩
  exact (ready.placed.dirLbas_region storable.valid (storable.dirWrites_mem edit.fits member)).1

end Storing

end Mmurtl.Fat

/-
This file proves where the structures of a mounted volume are: the reserved sectors,
the copies of the table, the fixed root and the clusters follow one another and do not
overlap, all inside the sectors the volume was mounted with.
-/

import Mmurtl.Fat.Table

namespace Mmurtl.Fat

open Bytes List

variable {cluster copy lba index first second : Nat}

/-! ### Placement -/

/-- The structures of a volume lie between its first sector, the boot sector, and a limit. -/
structure Layout.Placed (layout : Layout) (start limit : Nat) : Prop where
  spc : layout.spc ∈ clusterSizes
  some_clusters : 0 < layout.clusters
  kind : layout.kind = kindOf layout.clusters
  cluster_count : layout.clusters ≤ 0x0fffffee
  active : layout.active < layout.fats
  table : tableSize layout.kind layout.clusters ≤ layout.fatSectors * sectorSize
  reserved : start < layout.fatLba
  root : layout.rootLba = layout.fatLba + layout.fats * layout.fatSectors
  data : layout.dataLba =
    layout.rootLba + (layout.rootEntries * entrySize + sectorSize - 1) / sectorSize
  clusters : layout.dataLba + layout.clusters * layout.spc ≤ limit
  info : ∀ lba ∈ layout.infoLbas, start < lba ∧ lba < layout.fatLba
  root_cluster : layout.kind = .fat32 → layout.valid layout.rootCluster = true
  table_le : layout.fatSectors * sectorSize ≤ maxMetadata
  root_lt : layout.rootEntries < 2 ^ 16

/-- The number of a block of fixed size, from a position inside it. -/
theorem block_index (base : Nat) {size rest : Nat} (small : rest < size) :
    (base * size + rest) / size = base := by
  rw [Nat.mul_comm, Nat.mul_add_div (Nat.zero_lt_of_lt small), Nat.div_eq_of_lt small, Nat.add_zero]

namespace Layout

variable {layout : Layout} {start limit : Nat}

theorem valid_iff : layout.valid cluster = true ↔ 2 ≤ cluster ∧ cluster < layout.clusters + 2 := by
  simp [valid]

theorem mem_fatLbas :
    lba ∈ layout.fatLbas copy ↔
      ∃ index < layout.fatSectors, lba = layout.fatLba + copy * layout.fatSectors + index := by
  simp only [fatLbas, mem_map, mem_range]
  exact exists_congr fun index => and_congr_right fun _ => eq_comm

theorem mem_rootLbas :
    lba ∈ layout.rootLbas ↔ ∃ index < (layout.rootEntries * 32 + sectorSize - 1) / sectorSize,
        lba = layout.rootLba + index := by
  simp only [rootLbas, mem_map, mem_range]
  exact exists_congr fun index => and_congr_right fun _ => eq_comm

theorem mem_clusterLbas :
    lba ∈ layout.clusterLbas cluster ↔ ∃ index < layout.spc, lba = layout.lba cluster + index := by
  simp only [clusterLbas, mem_map, mem_range]
  exact exists_congr fun index => and_congr_right fun _ => eq_comm

@[simp] theorem length_fatLbas (copy : Nat) : (layout.fatLbas copy).length = layout.fatSectors := by
  simp [fatLbas]

@[simp] theorem length_clusterLbas (cluster : Nat) :
    (layout.clusterLbas cluster).length = layout.spc := by
  simp [clusterLbas]

theorem getElem?_fatLbas (below : index < layout.fatSectors) :
    (layout.fatLbas copy)[index]? = some (layout.fatLba + copy * layout.fatSectors + index) := by
  simp [fatLbas, below]

theorem getElem?_clusterLbas (below : index < layout.spc) :
    (layout.clusterLbas cluster)[index]? = some (layout.lba cluster + index) := by
  simp [clusterLbas, below]

/-- Distinct clusters have no sector in common. -/
theorem clusters_disjoint (firstValid : layout.valid first = true)
    (secondValid : layout.valid second = true) (inFirst : lba ∈ layout.clusterLbas first)
    (inSecond : lba ∈ layout.clusterLbas second) : first = second := by
  obtain ⟨index, inside, rfl⟩ := mem_clusterLbas.mp inFirst
  obtain ⟨other, otherInside, same⟩ := mem_clusterLbas.mp inSecond
  have firstBounds := valid_iff.mp firstValid
  have secondBounds := valid_iff.mp secondValid
  unfold Layout.lba at same
  have left := block_index (first - 2) inside
  have right := block_index (second - 2) otherInside
  have equal : (first - 2) * layout.spc + index = (second - 2) * layout.spc + other := by omega
  rw [equal, right] at left
  omega

/-- Distinct copies of the table have no sector in common. -/
theorem copies_disjoint (inFirst : lba ∈ layout.fatLbas first)
    (inSecond : lba ∈ layout.fatLbas second) : first = second := by
  obtain ⟨index, inside, rfl⟩ := mem_fatLbas.mp inFirst
  obtain ⟨other, otherInside, _⟩ := mem_fatLbas.mp inSecond
  have left := block_index first inside
  have right := block_index second otherInside
  have equal : first * layout.fatSectors + index = second * layout.fatSectors + other := by omega
  rw [equal, right] at left
  exact left.symm

namespace Placed

variable (placed : layout.Placed start limit)

include placed

theorem spc_pos : 0 < layout.spc := by
  have member := placed.spc
  simp only [clusterSizes, mem_cons, not_mem_nil, or_false] at member
  omega

theorem bytes_pos : 0 < layout.bytes := Nat.mul_pos placed.spc_pos (by decide)

/-- A copy of the table lies between the reserved sectors and the fixed root. -/
theorem fat_region (below : copy < layout.fats) (member : lba ∈ layout.fatLbas copy) :
    layout.fatLba ≤ lba ∧ lba < layout.rootLba := by
  obtain ⟨_, _, rfl⟩ := mem_fatLbas.mp member
  have copies : (copy + 1) * layout.fatSectors ≤ layout.fats * layout.fatSectors :=
    Nat.mul_le_mul_right _ below
  have root := placed.root
  rw [Nat.succ_mul] at copies
  omega

theorem root_region (member : lba ∈ layout.rootLbas) :
    layout.rootLba ≤ lba ∧ lba < layout.dataLba := by
  obtain ⟨_, _, rfl⟩ := mem_rootLbas.mp member
  have data := placed.data
  simp only [entrySize] at data
  omega

theorem fatLba_le_rootLba : layout.fatLba ≤ layout.rootLba := by
  rw [placed.root]
  exact Nat.le_add_right ..

theorem rootLba_le_dataLba : layout.rootLba ≤ layout.dataLba := by
  rw [placed.data]
  exact Nat.le_add_right ..

section

variable (valid : layout.valid cluster = true)
include valid

theorem data_region (member : lba ∈ layout.clusterLbas cluster) :
    layout.dataLba ≤ lba ∧ lba < limit := by
  obtain ⟨_, inside, rfl⟩ := mem_clusterLbas.mp member
  have bounds := valid_iff.mp valid
  have clusters : (cluster - 2 + 1) * layout.spc ≤ layout.clusters * layout.spc :=
    Nat.mul_le_mul_right _ (by omega)
  have room := placed.clusters
  rw [Nat.succ_mul] at clusters
  unfold lba
  omega

/-- The entry of every cluster lies inside the table. -/
theorem entry_fits : layout.kind.entryOffset cluster + layout.kind.entrySize ≤
      layout.fatSectors * sectorSize := by
  have bounds := valid_iff.mp valid
  have table := placed.table
  cases kind : layout.kind with
  | fat12 =>
    simp only [kind, tableSize] at table
    simp only [Kind.entryOffset, Kind.entrySize]
    omega
  | fat16 =>
    simp only [kind, tableSize] at table
    simp only [Kind.entryOffset, Kind.entrySize]
    omega
  | fat32 =>
    simp only [kind, tableSize] at table
    simp only [Kind.entryOffset, Kind.entrySize]
    omega

/-- A cluster number is not an end-of-chain value. -/
theorem valid_not_eof : layout.isEof cluster = false := by
  have bounds := valid_iff.mp valid
  have kind := placed.kind
  have count := placed.cluster_count
  unfold kindOf at kind
  refine decide_eq_false ?_
  unfold eof
  split at kind
  · simp only [kind]
    omega
  · split at kind
    · simp only [kind]
      omega
    · simp only [kind]
      omega

theorem valid_lt_modulus : cluster < layout.kind.modulus := by
  have bounds := valid_iff.mp valid
  have kind := placed.kind
  have count := placed.cluster_count
  unfold kindOf at kind
  split at kind
  · simp only [kind, Kind.modulus]
    omega
  · split at kind
    · simp only [kind, Kind.modulus]
      omega
    · simp only [kind, Kind.modulus]
      omega

end

omit placed in
theorem eof_lt_modulus (layout : Layout) : layout.eof < layout.kind.modulus := by
  cases kind : layout.kind <;> simp [eof, Kind.modulus, kind]

omit placed in
theorem isEof_eof (layout : Layout) : layout.isEof layout.eof = true := by
  simp [isEof]

end Placed

end Layout

end Mmurtl.Fat

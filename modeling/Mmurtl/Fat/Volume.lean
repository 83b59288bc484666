/-
This file models the FAT driver's view of a mounted volume: its geometry, the cached
allocation table, and the functions that read and change the table and the clusters.

A store is the mounted volume together with its device. Reading functions look at the
store; the others are programs over it, which keep the store they stop in.
-/

import Mmurtl.Library.Disk
import Mmurtl.Library.Program

namespace Mmurtl.Fat

open Bytes

/-! ### Constants and errors -/

/-- The most bytes of a FAT or of a directory the driver loads. -/
def maxMetadata : Nat := 8 * 1024 * 1024

/-- The most bytes of a file the driver reads or writes. -/
def maxFile : Nat := 16 * 1024 * 1024

/-- The errors of the driver. -/
inductive FatError where
  | diskReadFailed
  | stopped
  | invalidSectorWrite
  | diskWriteFailed
  | invalidCluster
  | invalidChain
  | diskFull
  | invalidClusterWrite
  | directoryReadFailed
  | directoryHasNoCluster
  | invalidDirectoryUpdate
  | fileNotFound
  | notADirectory
  | rootDirectory
  | missingFileName
  | noSuchDirectory
  | isADirectory
  | fileTooLarge
  | chainTooShort
  | alreadyExists
  | rootDirectoryFull
  | directoryTooLarge
  | emptyDirectoryChain
  | staleEntry
  | invalidName
  | aliasesExhausted
  | unsupportedBootSector
  | invalidGeometry
  | invalidDataRegion
  | invalidClusterCount
  | unsupportedTableSize
  | invalidFat32Bpb
  | invalidFat32Root
  | invalidFat16Bpb
  | fatReadFailed
  | readOnly
  | directoryNotEmpty
  deriving DecidableEq

/-! ### Volumes -/

/-- The width of the table's entries. -/
inductive Kind where
  | fat12
  | fat16
  | fat32
  deriving DecidableEq

/-- Where a volume's structures are; fixed while it is mounted. -/
structure Layout where
  kind : Kind
  fatLba : Nat
  fatSectors : Nat
  fats : Nat
  active : Nat
  mirrored : Bool
  dataLba : Nat
  spc : Nat
  clusters : Nat
  rootLba : Nat
  rootEntries : Nat
  rootCluster : Nat
  fsinfo : Option Nat
  backupFsinfo : Option Nat
  deriving DecidableEq

/-- A mounted volume. -/
structure Volume extends Layout where
  fat : List UInt8
  hint : Nat
  hintsInvalid : Bool
  freeCount : Nat
  failed : Bool

/-- A directory: the fixed or FAT32 root, or a chain of clusters. -/
structure Dir where
  cluster : Nat
  root : Bool
  deriving DecidableEq

/-- A mounted volume and its device. -/
structure Store where
  disk : Disk
  volume : Volume

/-- The driver's programs. -/
abbrev Driver (α : Type) : Type := Program Store FatError α

/-! ### Geometry -/

namespace Layout

variable (layout : Layout)

def root : Dir := ⟨layout.rootCluster, true⟩

/-- The bytes of a cluster. -/
def bytes : Nat := layout.spc * sectorSize

def valid (cluster : Nat) : Bool := 2 ≤ cluster && cluster < layout.clusters + 2

/-- The first sector of a cluster. -/
def lba (cluster : Nat) : Nat := layout.dataLba + (cluster - 2) * layout.spc

/-- The sectors of a cluster. -/
def clusterLbas (cluster : Nat) : List Nat :=
  (List.range layout.spc).map fun index => layout.lba cluster + index

/-- Whether a directory is the fixed root of FAT12 and FAT16. -/
def fixedRoot (dir : Dir) : Bool := dir.root && layout.kind != .fat32

/-- The sectors of the fixed root. -/
def rootLbas : List Nat :=
  (List.range ((layout.rootEntries * 32 + sectorSize - 1) / sectorSize)).map fun index =>
    layout.rootLba + index

/-- The sectors of a copy of the table. -/
def fatLbas (copy : Nat) : List Nat :=
  (List.range layout.fatSectors).map fun index =>
    layout.fatLba + copy * layout.fatSectors + index

/-- The sectors that hold the free count and the allocation hint. -/
def infoLbas : List Nat := layout.fsinfo.toList ++ layout.backupFsinfo.toList

def eof : Nat :=
  match layout.kind with
  | .fat12 => 0xfff
  | .fat16 => 0xffff
  | .fat32 => 0x0fffffff

def isEof (value : Nat) : Bool := layout.eof - 7 ≤ value

end Layout

/-! ### The allocation table -/

/-- Where the entry of a cluster starts in the table. -/
def Kind.entryOffset (kind : Kind) (cluster : Nat) : Nat :=
  match kind with
  | .fat12 => cluster + cluster / 2
  | .fat16 => cluster * 2
  | .fat32 => cluster * 4

/-- The bytes an entry touches. -/
def Kind.entrySize : Kind → Nat
  | .fat12 => 2
  | .fat16 => 2
  | .fat32 => 4

/-- The entry of a cluster: 12 bits of a two-byte word, 16 bits, or the low 28 of 32 bits. -/
def Kind.entry (kind : Kind) (fat : List UInt8) (cluster : Nat) : Nat :=
  match kind with
  | .fat12 =>
      let word := u16le fat (cluster + cluster / 2)
      if cluster % 2 = 0 then word % 4096 else word / 16
  | .fat16 => u16le fat (cluster * 2)
  | .fat32 => u32le fat (cluster * 4) % 268435456

/-- The bytes of a changed entry; the bits around it are kept. -/
def Kind.entryBytes (kind : Kind) (fat : List UInt8) (cluster value : Nat) : List UInt8 :=
  match kind with
  | .fat12 =>
      let old := u16le fat (cluster + cluster / 2)
      if cluster % 2 = 0 then le16 (old / 4096 * 4096 + value % 4096)
      else le16 (old % 16 + value % 4096 * 16)
  | .fat16 => le16 value
  | .fat32 =>
      let old := u32le fat (cluster * 4)
      le32 (old / 268435456 * 268435456 + value % 268435456)

/-- The table with one entry changed. -/
def Kind.setEntry (kind : Kind) (fat : List UInt8) (cluster value : Nat) : List UInt8 :=
  patch fat (kind.entryOffset cluster) (kind.entryBytes fat cluster value)

namespace Volume

variable (volume : Volume)

def check : Outcome FatError Unit :=
  if volume.failed then .error .stopped else .ok ()

def get (cluster : Nat) : Outcome FatError Nat :=
  if volume.valid cluster then
    if volume.kind.entryOffset cluster + volume.kind.entrySize ≤ volume.fat.length then
      .ok (volume.kind.entry volume.fat cluster)
    else .panic
  else .error .invalidCluster

/-- The walk along a chain. The clusters found so far are kept to detect a cycle, and the
number of steps left is the bound on the length of the chain. -/
def walk : Nat → List Nat → Nat → Outcome FatError (List Nat)
  | 0, _, _ => .error .invalidChain
  | steps + 1, out, cluster =>
    if !volume.valid cluster || out.contains cluster then .error .invalidChain
    else do
      let next ← volume.get cluster
      if volume.isEof next then return out ++ [cluster]
      else walk steps (out ++ [cluster]) next

/-- The clusters of a chain of at most `max` clusters. -/
def chain (first max : Nat) : Outcome FatError (List Nat) := do
  volume.check
  if first = 0 then return [] else volume.walk max [] first

/-- The search for free clusters, from the hint on and around the end of the table. -/
def select (count : Nat) : List Nat → List Nat → Outcome FatError (List Nat)
  | [], selected => .ok selected
  | offset :: rest, selected => do
    let cluster := 2 + (volume.hint - 2 + offset) % volume.clusters
    let value ← volume.get cluster
    if value = 0 then
      if (selected ++ [cluster]).length = count then return selected ++ [cluster]
      else select count rest (selected ++ [cluster])
    else select count rest selected

end Volume

/-! ### Writing sectors -/

/-- Read a sector of a device. -/
def sector (disk : Disk) (lba : Nat) : Outcome FatError (List UInt8) :=
  match disk.read lba with
  | some data => .ok data
  | none => .error .diskReadFailed

def Store.sector (store : Store) (lba : Nat) : Outcome FatError (List UInt8) :=
  Fat.sector store.disk lba

/-- Read a list of sectors of the device. -/
def Store.readAll (store : Store) (reason : FatError) : List Nat → Outcome FatError (List UInt8)
  | [] => .ok []
  | lba :: rest =>
    match store.disk.read lba with
    | some data => do
        let others ← store.readAll reason rest
        return data ++ others
    | none => .error reason

def check : Driver Unit := .reads fun store => store.volume.check

/-- Pass a sector to the device; a failed write stops the volume until it is mounted again. -/
def putSector (lba : Nat) (data : Sector) : Driver Unit := fun store =>
  match store.disk.write lba data with
  | (true, disk) => (.ok (), { store with disk := disk })
  | (false, disk) =>
      (.error .diskWriteFailed, { disk := disk, volume := { store.volume with failed := true } })

def writeSector (lba : Nat) (data : List UInt8) : Driver Unit := do
  check
  if fits : data.length = sectorSize then putSector lba ⟨data, fits⟩
  else .fail .invalidSectorWrite

/-! ### Changing the table -/

/-- The sectors of the table an entry touches. -/
def Kind.entrySectors (kind : Kind) (cluster : Nat) : List Nat :=
  let first := kind.entryOffset cluster / sectorSize
  let last := (kind.entryOffset cluster + kind.entrySize - 1) / sectorSize
  List.range' first (last + 1 - first)

/-- Write one sector of the cached table to a copy on the device. -/
def flush (copy index : Nat) : Driver Unit := do
  let volume ← .gets Store.volume
  let data ← .expect (slice? volume.fat (index * sectorSize) sectorSize)
  writeSector (volume.fatLba + copy * volume.fatSectors + index) data

/-- Change an entry of the table, in the cache and in the copies on the device. -/
def set (cluster value : Nat) : Driver Unit := do
  check
  let volume ← .gets Store.volume
  if volume.valid cluster then
    if volume.kind.entryOffset cluster + volume.kind.entrySize ≤ volume.fat.length then
      .modify fun store => { store with
        volume := { store.volume with
          fat := volume.kind.setEntry volume.fat cluster value } }
      .forEach (List.range volume.fats) fun copy =>
        if !volume.mirrored && copy != volume.active then pure ()
        else .forEach (volume.kind.entrySectors cluster) fun index => flush copy index
    else .expect none
  else .fail .invalidCluster

/-- Whether a sector carries the three signatures of an FSInfo sector. -/
def signed (data : List UInt8) : Bool :=
  u32le data 0 == 0x41615252 && u32le data 484 == 0x61417272 && u32le data 508 == 0xaa550000

/-- Mark the stored free count and hint as unknown. -/
def invalidateHints : Driver Unit := do
  let volume ← .gets Store.volume
  if volume.hintsInvalid then return ()
  else
    .forEach volume.infoLbas fun lba => do
      let data ← .reads fun store => store.sector lba
      if signed data then writeSector lba (patch data 488 (List.replicate 8 0xff))
      else pure ()
    .modify fun store => { store with volume := { store.volume with hintsInvalid := true } }

/-- Store the free count and the hint. -/
def syncHints : Driver Unit := do
  let volume ← .gets Store.volume
  .forEach volume.infoLbas fun lba => do
    let data ← .reads fun store => store.sector lba
    if signed data then
      writeSector lba (patch (patch data 488 (le32 volume.freeCount)) 492 (le32 volume.hint))
    else pure ()
  .modify fun store => { store with volume := { store.volume with hintsInvalid := false } }

/-! ### Clusters -/

/-- The entries that link clusters into one chain. -/
def links (layout : Layout) (clusters : List Nat) : List (Nat × Nat) :=
  clusters.zip (clusters.tail ++ [layout.eof])

/-- Take free clusters and link them into a chain. -/
def allocate (count : Nat) : Driver (List Nat) := do
  check
  if count = 0 then return []
  else
    let volume ← .gets Store.volume
    if volume.hint < 2 ∧ volume.clusters ≠ 0 then .expect none
    else
      let selected ← .reads fun store =>
        store.volume.select count (List.range volume.clusters) []
      if selected.length ≠ count then .fail .diskFull
      else
        invalidateHints
        .forEach (links volume.toLayout selected) fun link => set link.1 link.2
        let last ← .expect selected.getLast?
        if volume.freeCount < selected.length then .expect none
        else
          .modify fun store => { store with
            volume := { store.volume with
              hint := 2 + (last - 1) % volume.clusters
              freeCount := volume.freeCount - selected.length } }
          syncHints
          return selected

/-- Release the clusters of a chain. -/
def free (first : Nat) : Driver Unit := do
  let chain ← .reads fun store =>
    store.volume.chain first (maxFile / store.volume.bytes + 1)
  invalidateHints
  .forEach chain fun cluster => do
    set cluster 0
    .modify fun store => { store with
      volume := { store.volume with
        hint := min store.volume.hint cluster
        freeCount := store.volume.freeCount + 1 } }
  syncHints

def Store.readCluster (store : Store) (cluster : Nat) : Outcome FatError (List UInt8) :=
  if store.volume.valid cluster then
    store.readAll .diskReadFailed (store.volume.clusterLbas cluster)
  else .error .invalidCluster

/-- Read clusters one after another. -/
def Store.readClusters (store : Store) : List Nat → Outcome FatError (List UInt8)
  | [] => .ok []
  | cluster :: rest => do
    let data ← store.readCluster cluster
    let others ← store.readClusters rest
    return data ++ others

def writeCluster (cluster : Nat) (data : List UInt8) : Driver Unit := do
  let volume ← .gets Store.volume
  if !volume.valid cluster || data.length != volume.bytes then .fail .invalidClusterWrite
  else
    .forEach (List.range volume.spc) fun index =>
      writeSector (volume.lba cluster + index) (slice data (index * sectorSize) sectorSize)

end Mmurtl.Fat

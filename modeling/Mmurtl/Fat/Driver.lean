/-
This file models the FAT driver's operations on files and directories, and the probing
of a volume when it is mounted.

The operations run on a mounted volume, one at a time, as under the driver's lock.
-/

import Mmurtl.Fat.Entry

namespace Mmurtl.Fat

open Bytes

/-! ### Directories -/

/-- The chain and the bytes of a directory. -/
def Store.loadDir (store : Store) (dir : Dir) : Outcome FatError (List Nat × List UInt8) := do
  store.volume.check
  if store.volume.fixedRoot dir then
    let data ← store.readAll .directoryReadFailed store.volume.rootLbas
    return ([], data.take (store.volume.rootEntries * entrySize))
  else
    let chain ← store.volume.chain dir.cluster (maxMetadata / store.volume.bytes)
    if chain.isEmpty then .error .directoryHasNoCluster
    else
      let data ← store.readClusters chain
      return (chain, data)

/-- Write one sector of a directory. A last sector that holds less than a whole sector of
entries keeps the rest of what is on the device. -/
def storeDirSector (dir : Dir) (chain : List Nat) (data : List UInt8) (index : Nat) :
    Driver Unit := do
  let volume ← .gets Store.volume
  let begin := index * sectorSize
  .require (begin ≤ data.length)
  let taken := min sectorSize (data.length - begin)
  let base ← if taken < sectorSize then .reads fun store => store.sector (volume.rootLba + index)
    else pure (List.replicate sectorSize 0)
  let bytes := patch base 0 (slice data begin taken)
  if volume.fixedRoot dir then writeSector (volume.rootLba + index) bytes
  else
    let cluster ← .expect chain[begin / volume.bytes]?
    writeSector (volume.lba cluster + begin % volume.bytes / sectorSize) bytes

/-- Write the sectors of a directory that a range of its bytes touches. -/
def storeDir (dir : Dir) (chain : List Nat) (data : List UInt8) (start count : Nat) :
    Driver Unit :=
  if start + count > data.length then .fail .invalidDirectoryUpdate
  else
    .forEach (List.range' (start / sectorSize)
      ((start + count + sectorSize - 1) / sectorSize - start / sectorSize)) fun index =>
      storeDirSector dir chain data index

section Paths

variable [CaseMapping]

/-- Follow the components of a path to a record. -/
def Store.lookupFrom (store : Store) : Dir → List (List Char) → Outcome FatError (Dir × Record)
  | _, [] => .error .rootDirectory
  | dir, part :: rest => do
    let (_, data) ← store.loadDir dir
    match findRecord data store.volume.kind part with
    | none => .error .fileNotFound
    | some record =>
      if rest = [] then return (dir, record)
      else if record.isDir then store.lookupFrom ⟨record.cluster, false⟩ rest
      else .error .notADirectory

/-- The record a path names, and the directory it is in. -/
def Store.lookup (store : Store) (path : List Char) : Outcome FatError (Dir × Record) :=
  store.lookupFrom store.volume.root (components path)

/-- The directory a path names. -/
def Store.directory (store : Store) (path : List Char) : Outcome FatError Dir :=
  if components path = [] then .ok store.volume.root
  else do
    let (_, record) ← store.lookup path
    if record.isDir then return ⟨record.cluster, false⟩ else .error .notADirectory

/-- Follow the components of a path through directories. -/
def Store.enter (store : Store) : Dir → List (List Char) → Outcome FatError Dir
  | dir, [] => .ok dir
  | dir, part :: rest => do
    let (_, data) ← store.loadDir dir
    match findRecord data store.volume.kind part with
    | none => .error .noSuchDirectory
    | some record =>
      if record.isDir then store.enter ⟨record.cluster, false⟩ rest
      else .error .notADirectory

/-- The directory a path's last component is to be found in, and that component. -/
def Store.parent (store : Store) (path : List Char) : Outcome FatError (Dir × List Char) :=
  match (components path).getLast? with
  | none => .error .missingFileName
  | some name => do
    let dir ← store.enter store.volume.root (components path).dropLast
    return (dir, name)

end Paths

/-! ### File contents -/

/-- The contents of a file. -/
def Store.data (store : Store) (record : Record) : Outcome FatError (List UInt8) :=
  if record.isDir then .error .isADirectory
  else if record.size > maxFile then .error .fileTooLarge
  else do
    let needed := (record.size + store.volume.bytes - 1) / store.volume.bytes
    let chain ← store.volume.chain record.cluster (maxFile / store.volume.bytes + 1)
    if chain.length < needed then .error .chainTooShort
    else
      let data ← store.readClusters (chain.take needed)
      return data.take record.size

/-- Write data into a new chain. -/
def writeData (data : List UInt8) : Driver Nat := do
  if data.length > maxFile then .fail .fileTooLarge
  else
    let volume ← .gets Store.volume
    let clusters ← allocate ((data.length + volume.bytes - 1) / volume.bytes)
    .forEach clusters.zipIdx fun (cluster, index) => do
      .require (index * volume.bytes ≤ data.length)
      let piece := slice data (index * volume.bytes) volume.bytes
      writeCluster cluster (piece ++ List.replicate (volume.bytes - piece.length) 0)
    return clusters.head?.getD 0

/-! ### Directory updates -/

section Updates

variable [CaseMapping]

/-- Add a cluster of zeros to a directory. -/
def grow (volume : Volume) (chain : List Nat) : Driver Nat := do
  let clusters ← allocate 1
  let new ← .expect clusters.head?
  writeCluster new (List.replicate volume.bytes 0)
  match chain.getLast? with
  | none => .fail .emptyDirectoryChain
  | some last =>
    set last new
    return new

/-- Find room for new entries, adding clusters of zeros to the directory as needed. -/
def makeRoom (dir : Dir) (needed : Nat) :
    Nat → List Nat → List UInt8 → Driver (Nat × List Nat × List UInt8)
  | 0, _, _ => .expect none
  | steps + 1, chain, data =>
    match freeSlots data needed with
    | some start => return (start, chain, data)
    | none => do
      let volume ← .gets Store.volume
      if volume.fixedRoot dir then .fail .rootDirectoryFull
      else if data.length + volume.bytes > maxMetadata then .fail .directoryTooLarge
      else
        let new ← grow volume chain
        makeRoom dir needed steps (chain ++ [new]) (data ++ List.replicate volume.bytes 0)

/-- Put new entries into a directory, behind a new end marker where they replace the old one.
The short entry comes last: long-name entries without one are ignored. -/
def placeEntries (dir : Dir) (chain : List Nat) (data : List UInt8) (start : Nat)
    (group : List UInt8) : Driver Unit := do
  let finish := start + group.length
  .require (entrySize ≤ group.length ∧ finish ≤ data.length)
  let consumed := (entries (slice data start group.length)).any fun entry => field entry 0 == 0
  let marked := if consumed ∧ finish < data.length then data.set finish 0 else data
  .when (consumed ∧ finish < data.length) (storeDir dir chain marked finish entrySize)
  let long := group.length - entrySize
  let named := if group.length > entrySize then patch marked start (group.take long) else marked
  .when (group.length > entrySize) (storeDir dir chain named start long)
  storeDir dir chain (patch named (start + long) (group.drop long)) (start + long) entrySize

/-- Add a record to a directory. -/
def insert (dir : Dir) (name : List Char) (first size : Nat) (attr : UInt8) : Driver Unit := do
  .reads fun _ => validateName name
  let (chain, data) ← .reads fun store => store.loadDir dir
  let volume ← .gets Store.volume
  if (findRecord data volume.kind name).isSome then .fail .alreadyExists
  else
    let short ← .reads fun _ => shortName name ((records data volume.kind).map Record.short)
    let group := entrySet name short first size attr volume.kind
    let (start, chain, data) ← makeRoom dir (group.length / entrySize)
      (maxMetadata / volume.bytes + 1) chain data
    placeEntries dir chain data start group

end Updates

/-- Change the first cluster and the size of a record. -/
def update (dir : Dir) (record : Record) (first size : Nat) : Driver Unit := do
  let (chain, data) ← .reads fun store => store.loadDir dir
  let volume ← .gets Store.volume
  let old ← .expect (slice? data record.offset 11)
  if old ≠ record.short then .fail .staleEntry
  else
    let entry ← .expect (slice? data record.offset entrySize)
    let new := patch (putCluster entry first volume.kind) 28 (le32 size)
    storeDir dir chain (patch data record.offset new) record.offset entrySize

/-! ### Operations -/

section Operations

variable [CaseMapping]

section

variable (store : Store) (path : List Char)

/-- The names, kinds and sizes of the records of a directory. -/
def Store.readDir : Option (List (List Char × Bool × Nat)) :=
  Outcome.toOption do
    let dir ← store.directory path
    let (_, data) ← store.loadDir dir
    return (records data store.volume.kind).map fun record =>
      (record.name, record.isDir, record.size)

def Store.readFile : Option (List UInt8) :=
  Outcome.toOption do
    let (_, record) ← store.lookup path
    store.data record

def Store.metadata : Option (Bool × Nat) :=
  Outcome.toOption do
    store.volume.check
    let (_, record) ← store.lookup path
    return (record.isDir, record.size)

end

/-- Release a new chain that could not be entered into a directory, and pass the error on. -/
def rollback (first : Nat) (reason : FatError) : Driver Unit := do
  let volume ← .gets Store.volume
  .when (volume.failed = false) (free first).ignore
  .fail reason

def create (path : List Char) (data : List UInt8) : Driver Unit := do
  check
  let (parent, name) ← .reads fun store => store.parent path
  .reads fun _ => validateName name
  let (_, dir) ← .reads fun store => store.loadDir parent
  let volume ← .gets Store.volume
  if (findRecord dir volume.kind name).isSome then .fail .alreadyExists
  else
    let first ← writeData data
    (insert parent name first data.length 0x20).handle (rollback first)

def createFile (path : List Char) (data : List UInt8) : Driver Unit := create path data

/-- Replace the contents of a file: write the new data, publish it, release the old data. -/
def replace (parent : Dir) (record : Record) (data : List UInt8) : Driver Unit :=
  if record.isDir then .fail .isADirectory
  else if record.attr &&& 1 ≠ 0 then .fail .readOnly
  else do
    let first ← writeData data
    (update parent record first data.length).handle (rollback first)
    free record.cluster

def overwrite (path : List Char) (data : List UInt8) : Driver Unit := do
  check
  let (parent, name) ← .reads fun store => store.parent path
  .reads fun _ => validateName name
  let (_, dir) ← .reads fun store => store.loadDir parent
  let volume ← .gets Store.volume
  match findRecord dir volume.kind name with
  | none => create path data
  | some record => replace parent record data

def writeFile (path : List Char) (data : List UInt8) : Driver Unit := overwrite path data

def appendFile (path : List Char) (data : List UInt8) : Driver Unit := do
  let (parent, name) ← .reads fun store => store.parent path
  let (_, dir) ← .reads fun store => store.loadDir parent
  let volume ← .gets Store.volume
  match findRecord dir volume.kind name with
  | none => create path data
  | some record =>
    let old ← .reads fun store => store.data record
    if old.length + data.length > maxFile then .fail .fileTooLarge
    else overwrite path (old ++ data)

/-- The bytes of a new directory: its two dot entries and zeros. -/
def newDirectory (volume : Layout) (cluster parent : Nat) : List UInt8 :=
  let dot := 0x2e :: List.replicate 10 0x20
  let dotdot := 0x2e :: 0x2e :: List.replicate 9 0x20
  let blank := List.replicate volume.bytes 0
  patch (patch blank 0 (shortEntry dot cluster 0 0x10 volume.kind)) entrySize
    (shortEntry dotdot parent 0 0x10 volume.kind)

def mkdir (path : List Char) : Driver Unit := do
  check
  let (parent, name) ← .reads fun store => store.parent path
  .reads fun _ => validateName name
  let (_, dir) ← .reads fun store => store.loadDir parent
  let volume ← .gets Store.volume
  if (findRecord dir volume.kind name).isSome then .fail .alreadyExists
  else
    let clusters ← allocate 1
    let cluster ← .expect clusters.head?
    .require (2 * entrySize ≤ volume.bytes)
    writeCluster cluster
      (newDirectory volume.toLayout cluster (if parent.root then 0 else parent.cluster))
    (insert parent name cluster 0 0x10).handle (rollback cluster)

/-- Mark the entries of a record as deleted. -/
def erase (data : List UInt8) (record : Record) : List UInt8 :=
  (List.range' (record.start / entrySize)
    (record.offset / entrySize + 1 - record.start / entrySize)).foldl
    (fun data index => data.set (index * entrySize) 0xe5) data

/-- Refuse to delete a directory that has records. -/
def Store.checkEmpty (store : Store) (record : Record) : Outcome FatError Unit :=
  if record.isDir then do
    let (_, data) ← store.loadDir ⟨record.cluster, false⟩
    if (records data store.volume.kind).isEmpty then return () else .error .directoryNotEmpty
  else .ok ()

def delete (path : List Char) : Driver Unit := do
  check
  let (parent, record) ← .reads fun store => store.lookup path
  if record.attr &&& 1 ≠ 0 then .fail .readOnly
  else
    .reads fun store => store.checkEmpty record
    let _ ← .reads fun store =>
      store.volume.chain record.cluster (maxFile / store.volume.bytes + 1)
    let (chain, dir) ← .reads fun store => store.loadDir parent
    let _ ← .expect (slice? dir record.offset 1)
    .require (record.start ≤ record.offset + entrySize)
    storeDir parent chain (erase dir record) record.start
      (record.offset + entrySize - record.start)
    free record.cluster

end Operations

/-! ### Mounting -/

/-- Refuse a boot sector that fails a check. -/
def reject (refused : Bool) (reason : FatError) : Outcome FatError Unit :=
  if refused then .error reason else .ok ()

/-- The number of free clusters among some, added to those already counted. -/
def Volume.countFree (volume : Volume) : List Nat → Nat → Outcome FatError Nat
  | [], count => .ok count
  | cluster :: rest, count => do
    let value ← volume.get cluster
    volume.countFree rest (if value = 0 then count + 1 else count)

/-- The bytes `EXFAT   ` of an exFAT boot sector. -/
def exfatName : List UInt8 := [0x45, 0x58, 0x46, 0x41, 0x54, 0x20, 0x20, 0x20]

/-- The fields of a boot sector that only FAT32 has, or what stands for them. -/
structure RootFields where
  rootCluster : Nat
  active : Nat
  mirrored : Bool
  fsinfo : Option Nat
  backupFsinfo : Option Nat

def rootFields (boot : List UInt8) (kind : Kind) (start reserved fats roots clusters : Nat) :
    Outcome FatError RootFields :=
  if kind = .fat32 then do
    reject (roots != 0 || u16le boot 22 != 0 || u16le boot 42 != 0) .invalidFat32Bpb
    let root := u32le boot 44 % 268435456
    let mirrored := u16le boot 40 / 128 % 2 == 0
    let active := if mirrored then 0 else u16le boot 40 % 16
    reject (decide (root < 2) || decide (clusters + 2 ≤ root) || decide (fats ≤ active))
      .invalidFat32Root
    let info := u16le boot 48
    let backup := u16le boot 50
    let fsinfo := if info ≠ 0 ∧ info < reserved then some (start + info) else none
    let backupFsinfo :=
      if fsinfo.isSome ∧ 0 < backup ∧ backup + info < reserved then some (start + (backup + info))
      else none
    return ⟨root, active, mirrored, fsinfo, backupFsinfo⟩
  else do
    reject (roots == 0 || u16le boot 22 == 0) .invalidFat16Bpb
    return ⟨0, 0, true, none, none⟩

/-- Whether a number of sectors per cluster is a power of two up to 128. -/
def clusterSizes : List Nat := [1, 2, 4, 8, 16, 32, 64, 128]

/-- The width of the table entries of a volume with a number of clusters. -/
def kindOf (clusters : Nat) : Kind :=
  if clusters < 4085 then .fat12 else if clusters < 65525 then .fat16 else .fat32

/-- The bytes of table that a number of clusters needs. -/
def tableSize (kind : Kind) (clusters : Nat) : Nat :=
  match kind with
  | .fat12 => ((clusters + 2) * 3 + 1) / 2
  | .fat16 => (clusters + 2) * 2
  | .fat32 => (clusters + 2) * 4

/-- The layout of a volume that a boot sector describes. -/
def layoutOf (boot : List UInt8) (start length : Nat) : Outcome FatError Layout := do
  reject (slice boot 510 2 != [0x55, 0xaa] || (field boot 0 != 0xeb && field boot 0 != 0xe9) ||
    u16le boot 11 != 512 || slice boot 3 8 == exfatName) .unsupportedBootSector
  let spc := byteAt boot 13
  let reserved := u16le boot 14
  let fats := byteAt boot 16
  let roots := u16le boot 17
  let total := if u16le boot 19 ≠ 0 then u16le boot 19 else u32le boot 32
  let fatSectors := if u16le boot 22 ≠ 0 then u16le boot 22 else u32le boot 36
  reject (!clusterSizes.contains spc || reserved == 0 || !(fats == 1 || fats == 2) ||
    fatSectors == 0 || decide (length < total)) .invalidGeometry
  let rootSectors := (roots * 32 + 511) / 512
  let overhead := reserved + fats * fatSectors + rootSectors
  reject (decide (total ≤ overhead)) .invalidDataRegion
  let clusters := (total - overhead) / spc
  let kind := kindOf clusters
  reject (clusters == 0 || decide (0x0fffffee < clusters)) .invalidClusterCount
  let fatBytes := fatSectors * 512
  reject (decide (fatBytes < tableSize kind clusters) || decide (maxMetadata < fatBytes))
    .unsupportedTableSize
  let fields ← rootFields boot kind start reserved fats roots clusters
  let fatLba := start + reserved
  let rootLba := fatLba + fats * fatSectors
  return {
    kind := kind, fatLba := fatLba, fatSectors := fatSectors, fats := fats
    active := fields.active, mirrored := fields.mirrored, dataLba := rootLba + rootSectors
    spc := spc, clusters := clusters, rootLba := rootLba, rootEntries := roots
    rootCluster := fields.rootCluster, fsinfo := fields.fsinfo
    backupFsinfo := fields.backupFsinfo }

/-- Mount the volume that starts at a sector of the device. -/
def probe (disk : Disk) (start length : Nat) : Outcome FatError Volume := do
  let boot ← sector disk start
  let layout ← layoutOf boot start length
  let volume : Volume :=
    { toLayout := layout, fat := [], hint := 2, hintsInvalid := false, freeCount := 0
      failed := false }
  let fat ← Store.readAll ⟨disk, volume⟩ .fatReadFailed (layout.fatLbas layout.active)
  let loaded := { volume with fat := fat }
  let freeCount ← loaded.countFree (List.range' 2 layout.clusters) 0
  return { loaded with freeCount := freeCount }

end Mmurtl.Fat

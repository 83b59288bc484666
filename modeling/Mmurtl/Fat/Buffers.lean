/-
This file models the vectors of the FAT driver that grow on the heap. The heap serves no
buffer of more than 2 ^ 24 bytes, and a vector that is full asks for one of twice its size:
listing a directory panics beyond 131072 records, and so does an append to a file of more
than 8 MiB. All other buffers stay below the limit. The table and a directory have at most
8 MiB, also when the vector of a directory grows by a cluster, and the vector of a file has
the size of the file, which is at most 16 MiB.
-/

import Mmurtl.Fat.Discover
import Mmurtl.Fat.Failures
import Mmurtl.Memory.FreeSlots

namespace Mmurtl.Fat

open Bytes Outcome List

/-! ### Vectors -/

/-- Take a buffer from the heap. The kernel panics if there is none of this size. -/
def reserve (bytes : Nat) : Outcome FatError Unit :=
  if bytes ≤ 2 ^ Heap.maxShift then .ok () else .panic

/-- Push items, one by one, into a vector with some capacity for items of a size. -/
def pushAll {α : Type} (size : Nat) : Nat → List α → List α → Outcome FatError (List α)
  | _, done, [] => .ok done
  | capacity, done, item :: rest =>
    if done.length < capacity then pushAll size capacity (done ++ [item]) rest
    else do
      reserve (max 4 (2 * capacity) * size)
      pushAll size (max 4 (2 * capacity)) (done ++ [item]) rest

/-- Append data to a vector of bytes that is full. -/
def extendFull (old data : List UInt8) : Outcome FatError (List UInt8) :=
  if data = [] then .ok old
  else do
    reserve (max 8 (max (2 * old.length) (old.length + data.length)))
    return old ++ data

/-- The bytes that a record takes in memory. -/
def recordSize : Nat := 88

section Listings

variable [CaseMapping]

/-- The records of a directory, in a vector. -/
def heapRecords (data : List UInt8) (kind : Kind) : Outcome FatError (List Record) := do
  let found ← indexedRecords data kind
  pushAll recordSize 0 [] found

/-- Load and list a directory. -/
def Store.list (store : Store) (dir : Dir) : Outcome FatError (List Record) := do
  let (_, data) ← store.loadDir dir
  heapRecords data store.volume.kind

/-- List the directories along a path, from one on. -/
def Store.listAlong (store : Store) : Dir → List (List Char) → Outcome FatError Unit
  | _, [] => .ok ()
  | dir, part :: rest => do
    let found ← store.list dir
    match found.find? fun record => same record.name part || same record.aliasName part with
    | none => .ok ()
    | some record =>
      if record.isDir then store.listAlong ⟨record.cluster, false⟩ rest else .ok ()

variable {store : Store}

section

variable (loaded : store.volume.Loaded)
include loaded

end

/-! ### Calls -/

/-- The calls of the driver. Their paths are at most 2 MiB long, so that the vector of the
components of a path fits the heap. -/
inductive Access where
  | modify (operation : Operation)
  | readDir (path : List Char)
  | readFile (path : List Char)

/-- The components whose directories are listed to make a record of a name. The last of them is
not, if the name is not allowed. -/
def namedParts (path : List Char) : List (List Char) :=
  if (components path).getLast?.any validName then components path else (components path).dropLast

/-- The components whose directories are listed. -/
def Access.parts : Access → List (List Char)
  | .modify (.createFile path _) | .modify (.writeFile path _) | .modify (.mkdir path) =>
    namedParts path
  | .modify (.appendFile path _) | .modify (.delete path) | .readDir path | .readFile path =>
    components path

/-- The vectors of a call besides those of its path. What it lists again has not changed. -/
def Access.more (store : Store) : Access → Outcome FatError Unit
  | .readDir path =>
    match store.directory path with
    | .ok dir => do
      let _ ← store.list dir
    | _ => .ok ()
  | .modify (.appendFile path data) =>
    match store.fileData path with
    | .ok old =>
      if old.length + data.length > maxFile then .ok ()
      else do
        let _ ← extendFull old data
    | _ => .ok ()
  | .modify (.delete path) =>
    match store.lookup path with
    | .ok (_, record) =>
      if record.attr &&& 1 = 0 ∧ record.isDir then do
        let _ ← store.list ⟨record.cluster, false⟩
      else .ok ()
    | _ => .ok ()
  | _ => .ok ()

/-- What a call does, once it has its vectors. -/
def Access.bare : Access → Driver Unit
  | .modify operation => operation.run
  | .readDir path => .reads fun store => do
    let _ ← store.listDir path
  | .readFile path => .reads fun store => do
    let _ ← store.fileData path

/-- A call, with its vectors on the heap. It makes them before it writes. -/
def Access.run (access : Access) : Driver Unit := fun store =>
  if store.listAlong store.volume.root access.parts = .panic ∨ access.more store = .panic then
    (.panic, store)
  else access.bare store

/-- The heap serves the other buffers: those of the table, the fixed root, a cluster, a directory
that grows, a chain and a file. -/
structure Served (store : Store) : Prop where
  table : reserve store.volume.fat.length = .ok ()
  root : reserve (store.volume.rootLbas.length * sectorSize) = .ok ()
  cluster : reserve store.volume.bytes = .ok ()
  directory : ∀ dir chain data, store.loadDir dir = .ok (chain, data) →
    reserve (2 * data.length) = .ok ()
  chain : ∀ first max list, max ≤ maxFile / store.volume.bytes + 1 →
    store.volume.chain first max = .ok list → reserve (2 * (4 * list.length)) = .ok ()
  file : ∀ record data, store.data record = .ok data → reserve data.length = .ok ()

omit [CaseMapping] in
theorem reserve_of_le {bytes : Nat} (small : bytes ≤ 2 ^ 24) : reserve bytes = .ok () :=
  if_pos small

omit [CaseMapping] in
theorem Volume.Steady.served {start limit : Nat} (steady : store.volume.Steady start limit) :
    Served store := by
  have placed := steady.placed
  have positive := placed.bytes_pos
  have cluster : 512 ≤ store.volume.bytes ∧ store.volume.bytes ≤ 2 ^ 16 := by
    have size := placed.spc
    simp only [clusterSizes, mem_cons, not_mem_nil, or_false] at size
    unfold Layout.bytes sectorSize
    omega
  have root := placed.root_lt
  have table : store.volume.fat.length ≤ maxMetadata := by
    rw [steady.table]
    exact placed.table_le
  unfold maxMetadata at table
  refine ⟨reserve_of_le (by omega), reserve_of_le ?_, reserve_of_le (by omega),
    fun dir chain data found => reserve_of_le ?_, fun first max list small found =>
      reserve_of_le ?_, fun record data found => reserve_of_le ?_⟩
  · rw [Layout.rootLbas, length_map, length_range]
    unfold sectorSize
    omega
  · have loads := (loadDir_loads steady.loaded dir).of_ok found
    cases fixed : store.volume.fixedRoot dir with
    | true =>
      rw [loads.fixed fixed]
      unfold entrySize
      omega
    | false =>
      have room := (Nat.le_div_iff_mul_le positive).mp loads.short
      rw [loads.chained fixed]
      unfold maxMetadata at room
      omega
  · have length := (Volume.chainOf_of_chain steady.loaded found).2
    have most : maxFile / store.volume.bytes ≤ maxFile / 512 :=
      Nat.div_le_div_left cluster.1 (by decide)
    unfold maxFile at most small
    omega
  · unfold Store.data at found
    split at found
    · cases found
    split at found
    · cases found
    · simp only [Outcome.bind_eq_ok] at found
      obtain ⟨chain, _, found⟩ := found
      split at found
      · cases found
      · obtain ⟨bytes, _, same⟩ := Outcome.bind_eq_ok.mp found
        cases same
        rw [length_take]
        unfold maxFile at *
        omega

end Listings

end Mmurtl.Fat

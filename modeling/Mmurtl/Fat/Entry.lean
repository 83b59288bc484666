/-
This file models the 32-byte entries of FAT directories: reading the records of a
directory with their long names, building the entries of a new record, and finding
room for them.
-/

import Mmurtl.Fat.Name

namespace Mmurtl.Fat

open Bytes

/-! ### Entries of a directory -/

/-- The bytes of a directory entry. -/
def entrySize : Nat := 32

/-- The whole entries of a directory, one after another. -/
def entries (data : List UInt8) : List (List UInt8) :=
  (List.range (data.length / entrySize)).map fun index => slice data (index * entrySize) entrySize

/-- A byte of an entry. -/
def field (entry : List UInt8) (index : Nat) : UInt8 := entry[index]?.getD 0

/-- A file or directory of a directory. -/
structure Record where
  name : List Char
  aliasName : List Char
  short : List UInt8
  attr : UInt8
  cluster : Nat
  size : Nat
  offset : Nat
  start : Nat
  deriving DecidableEq

def Record.isDir (record : Record) : Bool := record.attr &&& 0x10 != 0

/-! ### Reading records -/

/-- A long name being read: its units so far, how many of its entries are still to come, how
many there are, their checksum, and where the first of them is. -/
structure LongName where
  units : List Nat
  remaining : Nat
  total : Nat
  sum : UInt8
  start : Nat

/-- Where the thirteen units of a long-name entry are. -/
def lfnPositions : List Nat := [1, 3, 5, 7, 9, 14, 16, 18, 20, 22, 24, 28, 30]

/-- The long name that the first of its entries starts. -/
def LongName.begin (index : Nat) (entry : List UInt8) : Option LongName :=
  let ordinal := (field entry 0 &&& 0x1f).toNat
  if 0 < ordinal ∧ ordinal ≤ 20 ∧ field entry 0 &&& 0xa0 = 0 then
    some ⟨List.replicate 260 0xffff, ordinal, ordinal, field entry 13, index * entrySize⟩
  else none

/-- Continue a long name with one of its entries; anything unexpected drops it. -/
def LongName.extend (pending : LongName) (entry : List UInt8) : Option LongName :=
  let ordinal := (field entry 0 &&& 0x1f).toNat
  if pending.remaining = 0 ∨ ordinal ≠ pending.remaining ∨ field entry 13 ≠ pending.sum ∨
      field entry 12 ≠ 0 ∨ u16le entry 26 ≠ 0 ∨ field entry 0 &&& 0xa0 ≠ 0 then none
  else
    some { pending with
      units := patch pending.units ((ordinal - 1) * 13) (lfnPositions.map (u16le entry))
      remaining := pending.remaining - 1 }

/-- Read a long-name entry. -/
def LongName.read (pending : Option LongName) (index : Nat) (entry : List UInt8) :
    Option LongName :=
  (if field entry 0 &&& 0x40 ≠ 0 then LongName.begin index entry else pending).bind fun begun =>
    begun.extend entry

/-- The text of a long name that is complete and belongs to a short name. -/
def LongName.text (pending : LongName) (short : List UInt8) : Option (List Char) :=
  if 0 < pending.total ∧ pending.remaining = 0 ∧ pending.sum = checksum short then
    let units := pending.units.take (pending.total * 13)
    let length := units.findIdx (· == 0)
    if 0 < length ∧ length ≤ 255 ∧ !(units.take length).contains 0xffff ∧
        (units.drop (length + if length < units.length then 1 else 0)).all (· == 0xffff) then
      (decodeUtf16 (units.take length)).filter validName
    else none
  else none

section Records

variable [CaseMapping]

/-- The first cluster an entry names. -/
def entryCluster (kind : Kind) (entry : List UInt8) : Nat :=
  u16le entry 26 + if kind = .fat32 then u16le entry 20 % 4096 * 65536 else 0

/-- Whether a short entry is a volume label or one of the dot entries. -/
def skipped (entry : List UInt8) : Bool :=
  field entry 11 &&& 8 != 0 || aliasName (entry.take 11) (field entry 12) == ['.'] ||
    aliasName (entry.take 11) (field entry 12) == ['.', '.']

/-- The record of a short entry after the long-name entries before it. -/
def shortRecord (kind : Kind) (pending : Option LongName) (index : Nat) (entry : List UInt8) :
    Record :=
  let short := entry.take 11
  let aliased := aliasName short (field entry 12)
  let long := pending.bind fun pending => (pending.text short).map fun name => (name, pending.start)
  { name := (long.map Prod.fst).getD aliased
    aliasName := aliased
    short := short
    attr := field entry 11
    cluster := entryCluster kind entry
    size := u32le entry 28
    offset := index * entrySize
    start := (long.map Prod.snd).getD (index * entrySize) }

/-- Read the entries from an index on, up to the end marker. -/
def readRecords (kind : Kind) : Option LongName → Nat → List (List UInt8) → List Record
  | _, _, [] => []
  | pending, index, entry :: rest =>
    if field entry 0 = 0 then []
    else if field entry 0 = 0xe5 then readRecords kind none (index + 1) rest
    else if field entry 11 = 0x0f then
      readRecords kind (LongName.read pending index entry) (index + 1) rest
    else if skipped entry then readRecords kind none (index + 1) rest
    else shortRecord kind pending index entry :: readRecords kind none (index + 1) rest

/-- The records of a directory. -/
def records (data : List UInt8) (kind : Kind) : List Record :=
  readRecords kind none 0 (entries data)

/-- The record a path component names. -/
def findRecord (data : List UInt8) (kind : Kind) (name : List Char) : Option Record :=
  (records data kind).find? fun record => same record.name name || same record.aliasName name

end Records

/-! ### Building entries -/

/-- Put a cluster number into a short entry. -/
def putCluster (entry : List UInt8) (first : Nat) (kind : Kind) : List UInt8 :=
  patch (patch entry 26 (le16 first)) 20 (le16 (if kind = .fat32 then first / 65536 else 0))

/-- A unit of a long name: a zero ends it, and the rest is filled with ones. -/
def nameUnit (units : List Nat) (offset : Nat) : Nat :=
  units[offset]?.getD (if offset = units.length then 0 else 0xffff)

/-- The long-name entry with an ordinal, counted from the end of the name. -/
def longEntry (units : List Nat) (count ordinal : Nat) (sum : UInt8) : List UInt8 :=
  let unit index := le16 (nameUnit units ((ordinal - 1) * 13 + index))
  [UInt8.ofNat ordinal ||| if ordinal = count then 0x40 else 0] ++
    unit 0 ++ unit 1 ++ unit 2 ++ unit 3 ++ unit 4 ++ [0x0f, 0, sum] ++
    unit 5 ++ unit 6 ++ unit 7 ++ unit 8 ++ unit 9 ++ unit 10 ++ [0, 0] ++ unit 11 ++ unit 12

/-- The short entry of a record, dated 1980-01-01. -/
def shortEntry (short : List UInt8) (first size : Nat) (attr : UInt8) (kind : Kind) :
    List UInt8 :=
  let blank := short ++ [attr, 0, 0, 0, 0, 0x21, 0, 0x21, 0, 0, 0, 0, 0, 0x21, 0, 0, 0, 0, 0, 0, 0]
  patch (putCluster blank first kind) 28 (le32 size)

/-- How many long-name entries a name needs beside its short name. -/
def longCount [CaseMapping] (name : List Char) (short : List UInt8) : Nat :=
  if name = aliasName short 0 then 0 else ((encodeUtf16 name).length + 12) / 13

/-- The entries of a new record. -/
def entrySet [CaseMapping] (name : List Char) (short : List UInt8) (first size : Nat)
    (attr : UInt8) (kind : Kind) : List UInt8 :=
  let count := longCount name short
  ((List.range count).flatMap fun index =>
    longEntry (encodeUtf16 name) count (count - index) (checksum short)) ++
    shortEntry short first size attr kind

/-- The search for a run of deleted entries, or of entries after the end marker. -/
def searchSlots (needed : Nat) : Nat → Bool → Nat → List (List UInt8) → Option Nat
  | _, _, _, [] => none
  | run, ended, index, entry :: rest =>
    let ended := ended || field entry 0 == 0
    if ended || field entry 0 == 0xe5 then
      if run + 1 = needed then some ((index + 1 - needed) * entrySize)
      else searchSlots needed (run + 1) ended (index + 1) rest
    else searchSlots needed 0 ended (index + 1) rest

/-- Where a directory has room for a number of entries. -/
def freeSlots (data : List UInt8) (needed : Nat) : Option Nat :=
  searchSlots needed 0 false 0 (entries data)

end Mmurtl.Fat

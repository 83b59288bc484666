/-
This file says what the listing of a directory is after a record was taken out of it or put
into it, for directories of any bytes: the other records are the same, at the same offsets
and in the same order.

A new record that needs no long-name entries can be given the name of long-name entries that
were left in front of it. This is the only way in which its name can be another one.
-/

import Mmurtl.Fat.Edits
import Mmurtl.Fat.Format
import Mmurtl.Fat.LongNames
import Mmurtl.Library.Keyed

namespace Mmurtl.Fat

open Bytes List

variable {data : List UInt8} {needed found : Nat}

/-! ### The order of records -/

section Listings

variable [CaseMapping]

theorem readRecords_keyed (kind : Kind) (pending : Option LongName) (index : Nat)
    (items : List (List UInt8)) :
    Keyed Record.offset (readRecords kind pending index items) := by
  induction items generalizing pending index with
  | nil => exact List.Pairwise.nil
  | cons entry rest ih =>
    have later := ih (carry pending index entry) (index + 1)
    rw [readRecords_cons]
    cases mark entry with
    | finish => exact List.Pairwise.nil
    | short =>
      refine List.Pairwise.cons (fun record member => ?_) later
      have bound := offset_le_of_mem member
      show index * entrySize < record.offset
      unfold entrySize at *
      omega
    | deleted => exact later
    | long => exact later
    | skipped => exact later

/-- The records of a directory are in the order of their offsets. -/
theorem records_keyed (data : List UInt8) (kind : Kind) : Keyed Record.offset (records data kind) :=
  readRecords_keyed kind none 0 (entries data)

/-! ### Taking out a record -/

/-- The entries of a record are its long-name entries and its short entry. Marking them as deleted
takes the record out of the listing and changes nothing else in it. -/
theorem erase_exact {data : List UInt8} {kind : Kind} {record : Record}
    (member : record ∈ records data kind) :
    (∀ slot, record.start ≤ slot * entrySize → slot * entrySize < record.offset →
      ∃ entry, (entries data)[slot]? = some entry ∧
        LongSlot (checksum record.short) (record.offset / entrySize - slot)
          (slot * entrySize = record.start) entry) ∧
    records (erase data record) kind = (records data kind).erase record := by
  obtain ⟨_, _, slot⟩ := mem_records.mp member
  refine ⟨fun index above below => ?_, ?_⟩
  · obtain ⟨_, _, start, all⟩ := slot.slots
    rw [start] at above ⊢
    rw [slot.offset] at below ⊢
    rw [Nat.mul_div_cancel _ (by decide)]
    obtain ⟨other, found, long⟩ := all index (Nat.le_of_mul_le_mul_right above (by decide))
      (Nat.lt_of_mul_lt_mul_right below)
    refine ⟨other, found, long.mark, long.sum, long.ordinal, long.opens.trans ?_⟩
    exact ⟨fun same => by rw [same], fun same => Nat.eq_of_mul_eq_mul_right (by decide) same⟩
  · refine (records_keyed data kind).erase_eq (records_keyed _ _) fun other => ?_
    rw [mem_records_erase slot]
    refine and_congr_right fun inside => not_congr ⟨fun same => ?_, fun same => by rw [same]⟩
    obtain ⟨_, _, otherSlot⟩ := mem_records.mp inside
    exact otherSlot.unique slot same

end Listings

/-- A directory of one record with a long name. -/
def longDirectory : List UInt8 :=
  @entrySet asciiMapping ['a', ' ', 'b'] replacedShort 2 7 0x20 .fat16

/-- The record of that directory. -/
def longRecord : Record where
  name := ['a', ' ', 'b']
  aliasName := ['_', '~', '1']
  short := replacedShort
  attr := 0x20
  cluster := 2
  size := 7
  offset := 32
  start := 0

/-- Taking out the only record leaves an empty listing. -/
theorem erase_exact_longDirectory :
    @records asciiMapping (erase longDirectory longRecord) .fat16 = [] := by
  have only : @records asciiMapping longDirectory .fat16 = [longRecord] := by decide +kernel
  have member : longRecord ∈ @records asciiMapping longDirectory .fat16 := by
    rw [only]
    exact List.mem_singleton_self _
  rw [(@erase_exact asciiMapping longDirectory .fat16 longRecord member).2, only]
  decide +kernel

/-! ### The place of a new record -/

/-- A place for a number of entries: the first run of free ones. It may reach behind the
directory, which grows then. -/
def Room (bytes : List UInt8) (needed place : Nat) : Prop :=
  ∃ count, freeSlots (bytes ++ List.replicate count 0) needed = some (place * entrySize)

theorem searchSlots_append {run index : Nat} {ended : Bool} {items : List (List UInt8)}
    (more : List (List UInt8)) (searched : searchSlots needed run ended index items = some found) :
    searchSlots needed run ended index (items ++ more) = some found := by
  induction items generalizing run ended index with
  | nil => cases searched
  | cons entry rest ih =>
    rw [cons_append, searchSlots]
    rw [searchSlots] at searched
    split at searched
    · rename_i free
      rw [if_pos free]
      split at searched
      · rename_i last
        rw [if_pos last]
        exact searched
      · rename_i last
        rw [if_neg last]
        exact ih searched
    · rename_i free
      rw [if_neg free]
      exact ih searched

/-- The entries of a byte string are the first ones of a longer one. -/
theorem entries_append_left (data more : List UInt8) :
    ∃ rest, entries (data ++ more) = entries data ++ rest := by
  refine ⟨(entries (data ++ more)).drop (entries data).length, ?_⟩
  have first : (entries (data ++ more)).take (entries data).length = entries data := by
    refine ext_getElem? fun index => ?_
    rw [getElem?_take, length_entries, getElem?_entries, getElem?_entries]
    by_cases inside : index < data.length / entrySize
    · have fits := entry_fits inside
      have longer : index < (data ++ more).length / entrySize := by
        rw [length_append]
        exact Nat.lt_of_lt_of_le inside (Nat.div_le_div_right (Nat.le_add_right ..))
      rw [if_pos inside, if_pos inside, if_pos longer, slice, slice,
        drop_append_of_le_length (by omega), take_append_of_le_length (by rw [length_drop]; omega)]
    · rw [if_neg inside, if_neg inside]
  exact ((take_append_drop ..).symm.trans (by rw [first]))

/-- There is one place for a number of entries. -/
theorem Room.unique {bytes : List UInt8} {place other : Nat} (room : Room bytes needed place)
    (otherRoom : Room bytes needed other) : place = other := by
  obtain ⟨count, found⟩ := room
  obtain ⟨otherCount, otherFound⟩ := otherRoom
  have longer : ∀ {count total place : Nat}, count ≤ total →
      freeSlots (bytes ++ List.replicate count 0) needed = some place →
      freeSlots (bytes ++ List.replicate total 0) needed = some place := by
    intro count total place order found
    have split : List.replicate total (0 : UInt8) =
        List.replicate count 0 ++ List.replicate (total - count) 0 := by
      rw [replicate_append_replicate, Nat.add_sub_cancel' order]
    rw [split, ← append_assoc]
    obtain ⟨rest, same⟩ := entries_append_left (bytes ++ List.replicate count 0)
      (List.replicate (total - count) 0)
    rw [freeSlots, same]
    exact searchSlots_append rest found
  have both := (longer (Nat.le_max_left count otherCount) found).symm.trans
    (longer (Nat.le_max_right count otherCount) otherFound)
  exact Nat.eq_of_mul_eq_mul_right (by decide) (Option.some.inj both)

/-! ### Putting in a record -/

section Adding

variable [CaseMapping]

/-- The name that the long-name entries in front of a place give to a short entry there. -/
def inherited (bytes : List UInt8) (place : Nat) (short : List UInt8) : Option (List Char) :=
  (pendingAt none 0 (entries bytes) place).bind fun pending => pending.text short

/-- A new record has no long-name entries of its own, and those in front of its place give it a
name. -/
def Inherits (bytes : List UInt8) (kind : Kind) (name other : List Char) : Prop :=
  ∃ short place, shortName name ((records bytes kind).map Record.short) = .ok short ∧
    name = aliasName short 0 ∧ Room bytes 1 place ∧ inherited bytes place short = some other

theorem longCount_eq_zero {name : List Char} {short : List UInt8} (valid : validName name = true) :
    longCount name short = 0 ↔ name = aliasName short 0 := by
  have positive := length_encodeUtf16_pos (printable_of_valid valid).1
  rw [longCount]
  split
  · rename_i direct
    exact ⟨fun _ => direct, fun _ => rfl⟩
  · rename_i direct
    exact ⟨fun none => by omega, fun same => absurd same direct⟩

/-- Where a single entry is put, all entries in front of it are those of the directory as it was. -/
theorem pendingAt_room {bytes : List UInt8} {count place : Nat} (aligned : entrySize ∣ bytes.length)
    (visible : Visible (entries (bytes ++ List.replicate count 0)) place)
    (inside : place < (entries (bytes ++ List.replicate count 0)).length) :
    pendingAt none 0 (entries (bytes ++ List.replicate count 0)) place =
      pendingAt none 0 (entries bytes) place := by
  rw [entries_append aligned] at *
  refine pendingAt_congr_before fun index below => getElem?_append_left ?_
  by_contra behind
  rw [Nat.not_lt] at behind
  have found := List.getElem?_eq_getElem (Nat.lt_trans below inside)
  refine visible index below _ found ?_
  rw [getElem?_append_right behind] at found
  rw [mark_eq_finish, field_of_entry found (by decide), getElem?_replicate]
  split <;> rfl

namespace Inserted

variable {layout : Layout} {before middle after : View} {dir : Dir}
  {name : List Char} {cluster size count place : Nat} {attr : UInt8} {chain other : List Nat}
  {bytes short : List UInt8}
  (inserted : Inserted layout dir name cluster size attr before middle after chain other
    bytes short count place)

include inserted

/-- The long name that is pending in front of the new short entry. -/
theorem pending_text (shaped : before.Shaped layout) :
    (pendingAt none 0 (entries (placedBytes (bytes ++ List.replicate count 0) (place * entrySize)
      (entrySet name short cluster size attr layout.kind))) (place + longCount name short)).bind
        (fun pending => pending.text short) =
      if name = aliasName short 0 then inherited bytes place short
      else if noncharacter ∈ name then none else some name := by
  obtain ⟨_, _, padded⟩ := (shortName_spec inserted.chosen).2
  have whole := length_entrySet name padded.length cluster size attr layout.kind
  obtain ⟨room, visible, -⟩ := freeSlots_at inserted.room
  have fits := freeSlots_room inserted.room
  rw [← whole] at fits
  by_cases direct : name = aliasName short 0
  · have none := (longCount_eq_zero inserted.valid).mpr direct
    rw [if_pos direct, none, Nat.add_zero, inherited, pendingAt_congr_before fun index below =>
        getElem?_entries_placed_of_lt whole fits inserted.aligned below,
      pendingAt_room (inserted.loaded.entrySize_dvd shaped) visible (by omega)]
  · have some_ : 0 < longCount name short :=
      Nat.pos_of_ne_zero fun none => direct ((longCount_eq_zero inserted.valid).mp none)
    have count : longCount name short = ((encodeUtf16 name).length + 12) / 13 := if_neg direct
    rw [if_neg direct, pendingAt_longEntries (fun unit member => encodeUtf16_lt member)
      (longCount_le inserted.valid short) (fun index below => ?_) some_ (Nat.le_refl _),
      Nat.sub_self, Option.bind_some]
    · show (partlyRead (encodeUtf16 name) (longCount name short) (checksum short) 0).text short = _
      rw [count, text_partlyRead inserted.valid]
    · rw [getElem?_entries_placed whole fits, if_pos (by omega), Nat.add_sub_cancel_left]
      exact (getElem?_entrySet name padded cluster size layout.kind attr).1 index below

theorem record_name (shaped : before.Shaped layout) (small : cluster < clusterLimit layout.kind)
    (fits : size < 4294967296) :
    inserted.record.name =
      if name = aliasName short 0 then (inherited bytes place short).getD name
      else if noncharacter ∈ name then aliasName short 0 else name := by
  obtain ⟨_, _, padded⟩ := (shortName_spec inserted.chosen).2
  rw [record, addedRecord, shortRecord_shortEntry padded.length small fits]
  rw [inserted.pending_text shaped]
  by_cases direct : name = aliasName short 0
  · rw [if_pos direct, if_pos direct, ← direct]
  · rw [if_neg direct, if_neg direct]
    split <;> rfl

/-- The cluster, the size and the attribute of a new record are as requested, and its short name
is the chosen one. -/
theorem record_fields (small : cluster < clusterLimit layout.kind) (fits : size < 4294967296) :
    inserted.record.cluster = cluster ∧ inserted.record.size = size ∧
      inserted.record.attr = attr ∧ inserted.record.short = short ∧
      inserted.record.aliasName = aliasName short 0 := by
  obtain ⟨_, _, padded⟩ := (shortName_spec inserted.chosen).2
  rw [record, addedRecord, shortRecord_shortEntry padded.length small fits]
  exact ⟨rfl, rfl, rfl, rfl, rfl⟩

/-- The names that a new record can be given by entries in front of it. -/
theorem inherits_iff {given : List Char} : Inherits bytes layout.kind name given ↔
    name = aliasName short 0 ∧ inherited bytes place short = some given := by
  have room : name = aliasName short 0 → Room bytes 1 place := by
    intro direct
    have found := inserted.room
    rw [(longCount_eq_zero inserted.valid).mpr direct] at found
    exact ⟨count, found⟩
  constructor
  · rintro ⟨_, _, chosen, direct, otherRoom, text⟩
    have shorts := inserted.chosen.symm.trans chosen
    cases shorts
    rw [(room direct).unique otherRoom]
    exact ⟨direct, text⟩
  · rintro ⟨direct, text⟩
    exact ⟨short, place, inserted.chosen, direct, room direct, text⟩

/-- A new record is added to the listing, which is otherwise as it was. -/
theorem adds (shaped : before.Shaped layout) (plain : Plain attr) :
    Adds inserted.record (records bytes layout.kind)
      (records (placedBytes (bytes ++ List.replicate count 0) (place * entrySize)
        (entrySet name short cluster size attr layout.kind)) layout.kind) := by
  refine (records_keyed _ _).adds (records_keyed _ _) (fun present => ?_)
    fun record => inserted.mem_records plain shaped
  have whole := (entrySet_chosen inserted.chosen cluster size attr layout.kind).1
  obtain ⟨-, -, free⟩ := freeSlots_at inserted.room
  have fits := freeSlots_room inserted.room
  rw [← whole] at fits
  rw [← records_append_zeros (inserted.loaded.entrySize_dvd shaped) count] at present
  obtain ⟨position, _, slot⟩ := Fat.mem_records.mp present
  have here : position = place + longCount name short :=
    Nat.eq_of_mul_eq_mul_right (by decide) (slot.offset.symm.trans rfl)
  exact (replaceable_placed whole fits free).not_slotAt (by omega) (by omega) slot

end Inserted

/-- What is asked of an insertion: the directory on the device lists what it listed before and one
record with the given name, cluster, size and attribute. -/
def ListsNew (layout : Layout) (dir : Dir) (name : List Char) (cluster size : Nat) (attr : UInt8)
    (bytes : List UInt8) (after : View) : Prop :=
  ∃ chain stored new, layout.DirData after dir chain stored ∧
    Adds new (records bytes layout.kind) (records stored layout.kind) ∧
    new.name = name ∧ new.cluster = cluster ∧ new.size = size ∧ new.attr = attr

/-- An insertion that succeeds adds the requested record, unless the record has no long-name
entries and is given another name by long-name entries in front of it. -/
theorem insert_exact_iff {start limit : Nat} {store after : Store}
    (mounted : Mounted start limit store) (reliable : store.disk.Reliable) {dir : Dir}
    {name : List Char} {cluster size : Nat} {attr : UInt8}
    (done : insert dir name cluster size attr store = (.ok (), after))
    (plain : noncharacter ∉ name) (small : cluster < clusterLimit store.volume.kind)
    (fits : size < 2 ^ 32) (listed : Plain attr) {chain : List Nat} {bytes : List UInt8}
    (data : store.volume.DirData store.deviceView dir chain bytes) :
    ListsNew store.volume.toLayout dir name cluster size attr bytes after.deviceView ↔
      ∀ other, Inherits bytes store.volume.kind name other → other = name := by
  have result := insert_meets mounted reliable dir name cluster size attr
  rw [Program.Meets, done] at result
  obtain ⟨mountedAfter, _, _, _, _, loaded, short, _, place, inserted⟩ := result
  rw [mounted.deviceView_eq] at data
  obtain ⟨rfl, rfl⟩ := data.unique inserted.loaded
  have shaped : store.view.Shaped store.volume.toLayout := Layout.shaped_view ..
  have adds := inserted.adds shaped listed
  have named := inserted.record_name shaped small fits
  rw [if_neg plain] at named
  obtain ⟨sameCluster, sameSize, sameAttr, _⟩ := inserted.record_fields small fits
  rw [mountedAfter.deviceView_eq]
  have exact_ : ListsNew store.volume.toLayout dir name cluster size attr bytes after.view ↔
      inserted.record.name = name := by
    constructor
    · rintro ⟨_, _, _, storedData, added, same, _⟩
      obtain ⟨_, rfl⟩ := storedData.unique inserted.rewritten.dirData
      rw [adds.unique added]
      exact same
    · exact fun same => ⟨_, _, _, inserted.rewritten.dirData, adds, same, sameCluster, sameSize,
        sameAttr⟩
  rw [exact_, named]
  simp only [inserted.inherits_iff]
  split
  · rename_i direct
    cases inherited bytes place short with
    | none => exact ⟨fun _ _ inherits => (by cases inherits.2), fun _ => rfl⟩
    | some given => exact ⟨fun same _ inherits => (Option.some.inj inherits.2).symm.trans same,
        fun only => only given ⟨direct, rfl⟩⟩
  · rename_i indirect
    exact ⟨fun _ _ inherits => absurd inherits.1 indirect, fun _ => rfl⟩

end Adding

/-- The small volume with given bytes in its root directory. -/
def rootedDisk (root : List UInt8) : Disk where
  capacity := 19
  sector lba :=
    if lba = 0 then Sector.of (smallBoot 1 19)
    else if lba = 2 then Sector.of root
    else Sector.of (List.replicate 512 0)
  faults _ := false
  log := []

/-- That volume as it is mounted. -/
def rootedStore (root : List UInt8) : Store :=
  ⟨rootedDisk root, (smallLayout 1 16).mount (rootedDisk root)⟩

theorem probe_rootedDisk (root : List UInt8) :
    probe (rootedDisk root) 0 19 = .ok (rootedStore root).volume := by
  have boot : (rootedDisk root).sector 0 = Sector.of (smallBoot 1 19) := by
    simp only [rootedDisk, ↓reduceIte]
  exact probe_of_smallBoot (Nat.le_refl 19) boot

theorem mounted_rootedStore (root : List UInt8) : Mounted 0 19 (rootedStore root) :=
  (layoutOf_placed layoutOf_smallBoot).mounted_mount (Nat.le_refl 19) rfl

/-- The record `A` is added to an empty directory. -/
theorem insert_exact_empty :
    @ListsNew asciiMapping (smallLayout 1 16) (smallLayout 1 16).root ['A'] 2 7 0x20
      (rootedStore (List.replicate 512 0)).deviceView.root
      (@insert asciiMapping (smallLayout 1 16).root ['A'] 2 7 0x20
        (rootedStore (List.replicate 512 0))).2.deviceView := by
  have done : (@insert asciiMapping (smallLayout 1 16).root ['A'] 2 7 0x20
      (rootedStore (List.replicate 512 0))).1 = .ok () := by
    decide +kernel
  have root : (rootedStore (List.replicate 512 0)).deviceView.root = List.replicate 512 0 := by
    decide +kernel
  refine (@insert_exact_iff asciiMapping 0 19 _ _ (mounted_rootedStore _) (fun _ => rfl) _ _ _ _ _
    (Program.run_of_fst done) (by decide) (by decide) (by decide) ⟨by decide, by decide⟩ []
    (rootedStore (List.replicate 512 0)).deviceView.root (.of_fixed rfl)).mpr ?_
  rintro _ ⟨short, _, _, _, room, text⟩
  have first : @Room (List.replicate 512 0) 1 0 := ⟨0, by decide +kernel⟩
  rw [root] at room text
  rw [room.unique first] at text
  cases text

/-- A root directory with a long-name entry of `x y`, whose checksum is that of the short name `A`,
in front of a deleted entry. -/
def leftoverRoot : List UInt8 :=
  longEntry (encodeUtf16 ['x', ' ', 'y']) 1 1 (checksum (0x41 :: List.replicate 10 0x20)) ++
    0xe5 :: List.replicate 479 0

/-- A file `A` that is created in that directory is listed as `x y`. -/
theorem not_listsNew_leftover :
    probe (rootedDisk leftoverRoot) 0 19 = .ok (rootedStore leftoverRoot).volume ∧
    (@insert asciiMapping (smallLayout 1 16).root ['A'] 2 7 0x20
      (rootedStore leftoverRoot)).1 = .ok () ∧
    ¬@ListsNew asciiMapping (smallLayout 1 16) (smallLayout 1 16).root ['A'] 2 7 0x20
      (rootedStore leftoverRoot).deviceView.root
      (@insert asciiMapping (smallLayout 1 16).root ['A'] 2 7 0x20
        (rootedStore leftoverRoot)).2.deviceView := by
  refine ⟨probe_rootedDisk leftoverRoot, by decide +kernel, ?_⟩
  rintro ⟨_, _, new, data, ⟨left, right, _, after⟩, name, _⟩
  have same := (data.fixed (by decide)).2
  rw [same] at after
  have names : (@records asciiMapping (@insert asciiMapping (smallLayout 1 16).root ['A'] 2 7 0x20
      (rootedStore leftoverRoot)).2.deviceView.root .fat12).map Record.name =
        [['x', ' ', 'y']] := by
    decide +kernel
  have listed : (left ++ new :: right).map Record.name = [['x', ' ', 'y']] :=
    (congrArg (List.map Record.name) after).symm.trans names
  have member : new.name ∈ (left ++ new :: right).map Record.name :=
    List.mem_map_of_mem (List.mem_append_right _ (List.mem_cons_self ..))
  rw [listed, name] at member
  exact absurd member (by decide)

end Mmurtl.Fat

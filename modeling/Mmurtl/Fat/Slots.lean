/-
This file describes the records of a directory entry by entry, for directories of any
origin: a record is a short entry in front of the end marker, and its name depends on
the long-name entries right before it.

So what is done to some entries changes the records of these entries and no others,
whatever else the directory holds.
-/

import Mmurtl.Fat.Driver

namespace Mmurtl.Fat

open Bytes List

variable {data new short : List UInt8} {index count run needed : Nat} {pending : Option LongName}
  {ended : Bool}

/-! ### Entries of a byte string -/

@[simp] theorem length_entries (data : List UInt8) :
    (entries data).length = data.length / entrySize := by
  simp [entries]

theorem getElem?_entries (data : List UInt8) (index : Nat) :
    (entries data)[index]? =
      if index < data.length / entrySize then some (slice data (index * entrySize) entrySize)
      else none := by
  unfold entries
  rw [getElem?_map]
  by_cases inside : index < data.length / entrySize
  · rw [if_pos inside, getElem?_range inside, Option.map_some]
  · rw [if_neg inside, List.getElem?_eq_none (by rw [length_range]; omega), Option.map_none]

theorem entry_fits (inside : index < data.length / entrySize) :
    index * entrySize + entrySize ≤ data.length := by
  have whole := Nat.div_mul_le_self data.length entrySize
  have room := Nat.mul_le_mul_right entrySize (Nat.succ_le_of_lt inside)
  rw [Nat.succ_mul] at room
  omega

variable {entry : List UInt8} {first : Nat}

theorem length_of_entry (found : (entries data)[index]? = some entry) :
    entry.length = entrySize := by
  rw [getElem?_entries] at found
  split at found
  · rename_i inside
    cases found
    exact length_slice (entry_fits inside)
  · cases found

theorem slice_slice {start size : Nat} (inside : first + size ≤ count) :
    slice (slice data start count) first size = slice data (start + first) size := by
  refine ext_getElem? fun index => ?_
  rw [getElem?_slice, getElem?_slice, getElem?_slice]
  by_cases below : index < size
  · rw [if_pos below, if_pos below, if_pos (by omega), Nat.add_assoc]
  · rw [if_neg below, if_neg below]

/-- The entries of a directory in which whole entries were replaced. -/
theorem getElem?_entries_patch {group : List UInt8} (whole : group.length = count * entrySize)
    (fits : first * entrySize + group.length ≤ data.length) (index : Nat) :
    (entries (patch data (first * entrySize) group))[index]? =
      if first ≤ index ∧ index < first + count then (entries group)[index - first]?
      else (entries data)[index]? := by
  have total : (first + count) * entrySize ≤ data.length := by
    rw [Nat.add_mul, ← whole]
    exact fits
  rw [getElem?_entries, getElem?_entries, getElem?_entries, length_patch fits, whole,
    Nat.mul_div_cancel _ (by decide)]
  by_cases inside : first ≤ index ∧ index < first + count
  · have below : index < data.length / entrySize :=
      (Nat.le_div_iff_mul_le (by decide)).mpr (Nat.le_trans (Nat.mul_le_mul_right _ inside.2) total)
    rw [if_pos below, if_pos inside, if_pos (by omega)]
    congr 1
    have place : index * entrySize = first * entrySize + (index - first) * entrySize := by
      rw [← Nat.add_mul]
      congr 1
      omega
    have room : (index - first) * entrySize + entrySize ≤ group.length := by
      rw [whole, ← Nat.succ_mul]
      exact Nat.mul_le_mul_right _ (by omega)
    rw [place, ← slice_slice room, slice_patch_self fits]
  · rw [if_neg inside]
    by_cases below : index < data.length / entrySize
    · rw [if_pos below, if_pos below]
      congr 1
      refine slice_patch_of_disjoint fits ?_
      rw [whole, ← Nat.add_mul, ← Nat.succ_mul]
      by_cases ahead : index < first
      · exact Or.inl (Nat.mul_le_mul_right _ ahead)
      · exact Or.inr (Nat.mul_le_mul_right _ (by omega))
    · rw [if_neg below, if_neg below]

theorem entries_singleton (whole : entry.length = entrySize) : entries entry = [entry] := by
  unfold entries
  rw [whole]
  refine congrArg (· :: []) ?_
  show slice entry (0 * entrySize) entrySize = entry
  rw [Nat.zero_mul, slice, drop_zero, take_of_length_le (Nat.le_of_eq whole)]

variable {position : Nat}

/-- Replacing one entry. -/
theorem entries_patch (whole : new.length = entrySize) (inside : position < (entries data).length) :
    entries (patch data (position * entrySize) new) = (entries data).set position new := by
  rw [length_entries] at inside
  refine ext_getElem? fun index => ?_
  rw [getElem?_entries_patch (by rw [whole, Nat.one_mul]) (by rw [whole]; exact entry_fits inside),
    getElem?_set, length_entries]
  by_cases here : position = index
  · subst here
    rw [if_pos (by omega), if_pos rfl, if_pos inside, entries_singleton whole, Nat.sub_self]
    rfl
  · rw [if_neg (by omega), if_neg here]

theorem entries_append {first second : List UInt8} (whole : entrySize ∣ first.length) :
    entries (first ++ second) = entries first ++ entries second := by
  obtain ⟨count, length⟩ := whole
  have first_count : first.length / entrySize = count := by
    rw [length, Nat.mul_div_cancel_left _ (by decide)]
  have total : (first ++ second).length / entrySize = count + second.length / entrySize := by
    rw [length_append, length, Nat.mul_add_div (by decide)]
  refine ext_getElem? fun index => ?_
  rw [getElem?_append, length_entries, getElem?_entries, getElem?_entries, getElem?_entries,
    total, first_count]
  by_cases inFirst : index < count
  · have room : index * entrySize + entrySize ≤ first.length := by
      rw [length, ← Nat.succ_mul, Nat.mul_comm entrySize]
      exact Nat.mul_le_mul_right _ inFirst
    rw [if_pos inFirst, if_pos inFirst, if_pos (Nat.lt_of_lt_of_le inFirst (Nat.le_add_right ..))]
    congr 1
    rw [slice, slice, drop_append_of_le_length (by omega),
      take_append_of_le_length (by rw [length_drop]; omega)]
  · rw [if_neg inFirst]
    by_cases inSecond : index - count < second.length / entrySize
    · rw [if_pos inSecond, if_pos (by omega)]
      congr 1
      have place : index * entrySize = first.length + (index - count) * entrySize := by
        rw [length, Nat.mul_comm entrySize, ← Nat.add_mul]
        congr 1
        omega
      rw [slice, slice, place, drop_append, drop_of_length_le (Nat.le_add_right ..),
        nil_append, Nat.add_sub_cancel_left]
    · rw [if_neg inSecond, if_neg (by omega)]

/-- The entries of a byte string made of whole entries. -/
theorem entries_flatMap {α : Type} {items : List α} {build : α → List UInt8}
    (whole : ∀ item ∈ items, (build item).length = entrySize) :
    entries (items.flatMap build) = items.map build := by
  induction items with
  | nil => simp [entries]
  | cons item rest ih =>
    have first := whole item mem_cons_self
    rw [flatMap_cons, entries_append ⟨1, by rw [first, Nat.mul_one]⟩, entries_singleton first,
      ih (forall_mem_cons.mp whole).2]
    rfl

theorem field_of_entry {offset : Nat} (found : (entries data)[index]? = some entry)
    (small : offset < entrySize) :
    field entry offset = data[index * entrySize + offset]?.getD 0 := by
  rw [getElem?_entries] at found
  split at found
  · cases found
    rw [field, getElem?_slice, if_pos small]
  · cases found

/-- The entries of a directory in which the first byte of one entry was changed. -/
theorem entries_set (inside : position < (entries data).length) (byte : UInt8) :
    (entries (data.set (position * entrySize) byte)).length = (entries data).length ∧
      (∀ index, index ≠ position →
        (entries (data.set (position * entrySize) byte))[index]? = (entries data)[index]?) ∧
      ∃ entry, (entries (data.set (position * entrySize) byte))[position]? = some entry ∧
        field entry 0 = byte := by
  have length : (data.set (position * entrySize) byte).length = data.length := length_set
  rw [length_entries] at inside
  refine ⟨by rw [length_entries, length_entries, length], fun index different => ?_, ?_⟩
  · rw [getElem?_entries, getElem?_entries, length]
    by_cases below : index < data.length / entrySize
    · rw [if_pos below, if_pos below]
      congr 1
      refine ext_getElem? fun offset => ?_
      rw [getElem?_slice, getElem?_slice]
      by_cases small : offset < entrySize
      · rw [if_pos small, if_pos small, getElem?_set_ne]
        unfold entrySize at *
        omega
      · rw [if_neg small, if_neg small]
    · rw [if_neg below, if_neg below]
  · have there : (entries (data.set (position * entrySize) byte))[position]? = some _ :=
      (getElem?_entries ..).trans (if_pos (by rw [length]; exact inside))
    refine ⟨_, there, ?_⟩
    have start : position * entrySize < data.length := by
      unfold entrySize at *
      omega
    rw [field_of_entry there (by decide), Nat.add_zero, getElem?_set_self start]
    rfl

/-! ### What the reader does with an entry -/

/-- The kinds of directory entries. -/
inductive Mark where
  | finish
  | deleted
  | long
  | skipped
  | short
  deriving DecidableEq

section Reading

variable [CaseMapping]

/-- The kind of an entry. -/
def mark (entry : List UInt8) : Mark :=
  if field entry 0 = 0 then .finish
  else if field entry 0 = 0xe5 then .deleted
  else if field entry 11 = 0x0f then .long
  else if skipped entry then .skipped
  else .short

/-- The long name that is pending behind an entry. -/
def carry (pending : Option LongName) (index : Nat) (entry : List UInt8) : Option LongName :=
  if mark entry = .long then LongName.read pending index entry else none

/-- The long name that is pending in front of an entry. -/
def pendingAt (pending : Option LongName) (index : Nat) (items : List (List UInt8)) :
    Nat → Option LongName
  | 0 => pending
  | position + 1 =>
    match items[position]? with
    | some entry => carry (pendingAt pending index items position) (index + position) entry
    | none => none

theorem readRecords_cons (kind : Kind) (pending : Option LongName) (index : Nat)
    (entry : List UInt8) (rest : List (List UInt8)) :
    readRecords kind pending index (entry :: rest) =
      match mark entry with
      | .finish => []
      | .short => shortRecord kind pending index entry ::
          readRecords kind (carry pending index entry) (index + 1) rest
      | _ => readRecords kind (carry pending index entry) (index + 1) rest := by
  rw [readRecords, carry, mark]
  split
  · rfl
  · split
    · rfl
    · split
      · rfl
      · split <;> rfl

theorem pendingAt_cons (pending : Option LongName) (index : Nat) (entry : List UInt8)
    (rest : List (List UInt8)) (position : Nat) :
    pendingAt pending index (entry :: rest) (position + 1) =
      pendingAt (carry pending index entry) (index + 1) rest position := by
  induction position with
  | zero => rfl
  | succ position ih =>
    rw [pendingAt, ih, pendingAt, getElem?_cons_succ]
    have place : index + (position + 1) = index + 1 + position := by omega
    rw [place]

/-- No end marker stands in front of a position. -/
def Visible (items : List (List UInt8)) (position : Nat) : Prop :=
  ∀ before < position, ∀ entry, items[before]? = some entry → mark entry ≠ .finish

/-- The record of the short entry at a position. -/
structure SlotAt (kind : Kind) (items : List (List UInt8)) (position : Nat) (entry : List UInt8)
    (record : Record) : Prop where
  found : items[position]? = some entry
  visible : Visible items position
  short : mark entry = .short
  record : record = shortRecord kind (pendingAt none 0 items position) position entry

/-- The kind of the entry at a position. -/
def MarkAt (items : List (List UInt8)) (position : Nat) (expected : Mark) : Prop :=
  ∃ entry, items[position]? = some entry ∧ mark entry = expected

theorem MarkAt.ne {expected other : Mark} (there : MarkAt items position expected)
    (different : expected ≠ other) (found : items[position]? = some entry) :
    mark entry ≠ other := by
  obtain ⟨_, place, rfl⟩ := there
  rw [place] at found
  cases found
  exact different

theorem SlotAt.markAt {record : Record} (slot : SlotAt kind items position entry record) :
    MarkAt items position .short :=
  ⟨entry, slot.found, slot.short⟩

theorem visible_cons {rest : List (List UInt8)} :
    Visible (entry :: rest) (position + 1) ↔ mark entry ≠ .finish ∧ Visible rest position := by
  constructor
  · intro visible
    exact ⟨visible 0 (Nat.zero_lt_succ _) entry rfl, fun before below other found =>
      visible (before + 1) (Nat.succ_lt_succ below) other found⟩
  · rintro ⟨first, others⟩ before below other found
    cases before with
    | zero =>
      cases found
      exact first
    | succ before => exact others before (Nat.lt_of_succ_lt_succ below) other found

variable {kind : Kind} {items : List (List UInt8)} {record : Record}

/-- The records read are those of the visible short entries. -/
theorem mem_readRecords : record ∈ readRecords kind pending index items ↔
      ∃ position entry, items[position]? = some entry ∧ Visible items position ∧
        mark entry = .short ∧
        record = shortRecord kind (pendingAt pending index items position) (index + position)
          entry := by
  induction items generalizing pending index with
  | nil =>
    refine ⟨fun member => absurd member not_mem_nil, ?_⟩
    rintro ⟨position, entry, found, _⟩
    cases found
  | cons first rest ih =>
    rw [readRecords_cons]
    have later : (∃ position entry, rest[position]? = some entry ∧ Visible rest position ∧
        mark entry = .short ∧ record = shortRecord kind
          (pendingAt (carry pending index first) (index + 1) rest position)
          (index + 1 + position) entry) ∧ mark first ≠ .finish ↔
        ∃ position entry, (first :: rest)[position + 1]? = some entry ∧
          Visible (first :: rest) (position + 1) ∧ mark entry = .short ∧
          record = shortRecord kind (pendingAt pending index (first :: rest) (position + 1))
            (index + (position + 1)) entry := by
      simp only [pendingAt_cons, visible_cons, getElem?_cons_succ, Nat.add_assoc, Nat.add_comm 1]
      constructor
      · rintro ⟨⟨position, entry, found, visible, short, same⟩, open_⟩
        exact ⟨position, entry, found, ⟨open_, visible⟩, short, same⟩
      · rintro ⟨position, entry, found, ⟨open_, visible⟩, short, same⟩
        exact ⟨⟨position, entry, found, visible, short, same⟩, open_⟩
    constructor
    · intro member
      have cases_ : mark first ≠ .finish ∧
          ((mark first = .short ∧ record = shortRecord kind pending index first) ∨
            record ∈ readRecords kind (carry pending index first) (index + 1) rest) := by
        cases kindOf : mark first <;> rw [kindOf] at member <;> simp_all
      obtain ⟨open_, ⟨short, same⟩ | behind⟩ := cases_
      · exact ⟨0, first, rfl, fun _ below => absurd below (Nat.not_lt_zero _), short, same⟩
      · obtain ⟨position, entry, rest⟩ := later.mp ⟨ih.mp behind, open_⟩
        exact ⟨position + 1, entry, rest⟩
    · rintro ⟨position, entry, found, visible, short, same⟩
      cases position with
      | zero =>
        cases found
        rw [short]
        exact mem_cons.mpr (Or.inl same)
      | succ position =>
        obtain ⟨_, _⟩ := later.mpr ⟨position, entry, found, visible, short, same⟩
        cases kindOf : mark first <;> simp_all

theorem mem_records : record ∈ records data kind ↔
      ∃ position entry, SlotAt kind (entries data) position entry record := by
  rw [records, mem_readRecords]
  simp only [Nat.zero_add]
  constructor
  · rintro ⟨position, entry, found, visible, short, same⟩
    exact ⟨position, entry, found, visible, short, same⟩
  · rintro ⟨position, entry, found, visible, short, same⟩
    exact ⟨position, entry, found, visible, short, same⟩

/-! ### Records and their entries -/

/-- A long-name entry with a checksum and an ordinal, which says whether it is the first one. -/
structure LongSlot (sum : UInt8) (ordinal : Nat) (opens : Prop) (entry : List UInt8) : Prop where
  mark : mark entry = .long
  sum : field entry 13 = sum
  ordinal : (field entry 0 &&& 0x1f).toNat = ordinal
  opens : field entry 0 &&& 0x40 ≠ 0 ↔ opens

omit [CaseMapping] in
theorem LongName.extend_eq_some {begun pending : LongName} {entry : List UInt8}
    (extended : begun.extend entry = some pending) :
    begun.remaining ≠ 0 ∧ (field entry 0 &&& 0x1f).toNat = begun.remaining ∧
      field entry 13 = begun.sum ∧ pending = { begun with
        units := patch begun.units ((begun.remaining - 1) * 13) (lfnPositions.map (u16le entry))
        remaining := begun.remaining - 1 } := by
  rw [LongName.extend] at extended
  split at extended
  · cases extended
  · rename_i accepted
    simp only [not_or, not_not] at accepted
    cases extended
    refine ⟨accepted.1, accepted.2.1, accepted.2.2.1, ?_⟩
    rw [accepted.2.1]

omit [CaseMapping] in
theorem LongName.complete_of_text {pending : LongName} {name : List Char}
    (text : pending.text short = some name) :
    pending.remaining = 0 ∧ pending.sum = checksum short := by
  rw [LongName.text] at text
  split at text
  · rename_i complete
    exact ⟨complete.2.1, complete.2.2⟩
  · cases text

section Slot

theorem SlotAt.offset (slot : SlotAt kind items position entry record) :
    record.offset = position * entrySize := by
  rw [slot.record]
  rfl

/-- A record is determined by its offset. -/
theorem SlotAt.unique {other : List UInt8} {otherPosition : Nat} {otherRecord : Record}
    (slot : SlotAt kind items position entry record)
    (otherSlot : SlotAt kind items otherPosition other otherRecord)
    (same : record.offset = otherRecord.offset) : record = otherRecord := by
  have positions : position = otherPosition := by
    rw [slot.offset, otherSlot.offset] at same
    exact Nat.eq_of_mul_eq_mul_right (by decide) same
  subst positions
  have entries := slot.found.symm.trans otherSlot.found
  cases entries
  rw [slot.record, otherSlot.record]

/-- The entries a pending long name was read from. -/
theorem pendingAt_slots {pending : LongName}
    (found : pendingAt none 0 items position = some pending) :
    ∃ first, pending.start = first * entrySize ∧ first < position ∧
      ∀ between, first ≤ between → between < position → ∃ entry, items[between]? = some entry ∧
        LongSlot pending.sum (pending.remaining + (position - between))
          (between = first) entry := by
  induction position generalizing pending with
  | zero => cases found
  | succ position ih =>
    rw [pendingAt] at found
    split at found
    swap
    · cases found
    · rename_i entry here
      rw [carry] at found
      split at found
      swap
      · cases found
      · rename_i long
        rw [LongName.read, Option.bind_eq_some_iff] at found
        obtain ⟨begun, started, extended⟩ := found
        obtain ⟨some_, ordinal, sum, same⟩ := LongName.extend_eq_some extended
        have kept : pending.start = begun.start ∧ pending.sum = begun.sum ∧
            pending.remaining + 1 = begun.remaining := by
          rw [same]
          exact ⟨rfl, rfl, Nat.sub_add_cancel (Nat.pos_of_ne_zero some_)⟩
        have last : ∀ {opens : Prop}, (field entry 0 &&& 0x40 ≠ 0 ↔ opens) →
            LongSlot pending.sum (pending.remaining + (position + 1 - position)) opens entry := by
          intro _ flag
          refine ⟨long, sum.trans kept.2.1.symm, ?_, flag⟩
          rw [ordinal, ← kept.2.2, Nat.add_sub_cancel_left]
        rw [kept.1]
        split at started
        · rename_i flag
          have place : begun.start = position * entrySize := by
            rw [LongName.begin] at started
            split at started
            · cases started
              rw [Nat.zero_add]
            · cases started
          refine ⟨position, place, Nat.lt_succ_self _, fun between above below => ?_⟩
          have here_ : between = position := by omega
          rw [here_]
          exact ⟨entry, here, last ⟨fun _ => rfl, fun _ => flag⟩⟩
        · rename_i flag
          obtain ⟨first, place, before, all⟩ := ih started
          refine ⟨first, place, Nat.lt_succ_of_lt before, fun between above below => ?_⟩
          by_cases here_ : between = position
          · rw [here_]
            exact ⟨entry, here, last ⟨fun bit => absurd bit flag, fun same => by omega⟩⟩
          · obtain ⟨other, there, slot⟩ := all between above (by omega)
            have step : pending.remaining + (position + 1 - between) =
                begun.remaining + (position - between) := by omega
            rw [step, kept.2.1]
            exact ⟨other, there, slot⟩

section

variable (slot : SlotAt kind items position entry record)
include slot

/-- The first entry of a record: it and those up to the short entry are the long-name entries of
the record. -/
theorem SlotAt.slots : ∃ first ≤ position, record.start = first * entrySize ∧
      ∀ between, first ≤ between → between < position → ∃ entry, items[between]? = some entry ∧
        LongSlot (checksum record.short) (position - between) (between = first) entry := by
  have whole : ∀ pending : Option LongName, pending = pendingAt none 0 items position →
      ∃ first ≤ position,
        (shortRecord kind pending position entry).start = first * entrySize ∧
        ∀ between, first ≤ between → between < position → ∃ other, items[between]? = some other ∧
          LongSlot (checksum (entry.take 11)) (position - between) (between = first) other := by
    intro pending same
    have alone : ∃ first ≤ position, position * entrySize = first * entrySize ∧
        ∀ between, first ≤ between → between < position → ∃ other, items[between]? = some other ∧
          LongSlot (checksum (entry.take 11)) (position - between) (between = first) other :=
      ⟨position, Nat.le_refl _, rfl, fun between above below => by omega⟩
    cases pending with
    | none => exact alone
    | some pending =>
      obtain ⟨first, place, before, all⟩ := pendingAt_slots same.symm
      cases text : pending.text (entry.take 11) with
      | none =>
        simp only [shortRecord, Option.bind_some, text, Option.map_none, Option.getD_none]
        exact alone
      | some name =>
        simp only [shortRecord, Option.bind_some, text, Option.map_some, Option.getD_some]
        obtain ⟨none, sum⟩ := LongName.complete_of_text text
        refine ⟨first, Nat.le_of_lt before, place, fun between above below => ?_⟩
        obtain ⟨other, there, slot⟩ := all between above below
        rw [none, sum, Nat.zero_add] at slot
        exact ⟨other, there, slot⟩
  rw [slot.record]
  exact whole _ rfl

theorem SlotAt.start : ∃ first ≤ position, record.start = first * entrySize ∧
      ∀ between, first ≤ between → between < position → MarkAt items between .long := by
  obtain ⟨first, order, place, all⟩ := slot.slots
  refine ⟨first, order, place, fun between above below => ?_⟩
  obtain ⟨other, there, slot⟩ := all between above below
  exact ⟨other, there, slot.mark⟩

theorem SlotAt.start_le : record.start ≤ record.offset := by
  obtain ⟨first, before, place, _⟩ := slot.start
  rw [place, slot.offset]
  exact Nat.mul_le_mul_right _ before

end

end Slot

/-! ### Changes to some entries -/

section Changes

variable {before after : List (List UInt8)} {first last : Nat}

theorem pendingAt_congr_before (same : ∀ index < position, after[index]? = before[index]?) :
    pendingAt none 0 after position = pendingAt none 0 before position := by
  induction position with
  | zero => rfl
  | succ position ih =>
    rw [pendingAt, pendingAt, same position (Nat.lt_succ_self _),
      ih fun index below => same index (Nat.lt_succ_of_lt below)]

/-- A long name does not reach behind an entry that is not part of one. -/
theorem pendingAt_succ_of_not_long
    (stop : ∀ entry, items[position]? = some entry → mark entry ≠ .long) :
    pendingAt none 0 items (position + 1) = none := by
  rw [pendingAt]
  split
  · rename_i entry found
    exact if_neg (stop entry found)
  · rfl

theorem pendingAt_congr_behind
    (stopBefore : ∀ entry, before[last]? = some entry → mark entry ≠ .long)
    (stopAfter : ∀ entry, after[last]? = some entry → mark entry ≠ .long)
    (same : ∀ index, last < index → after[index]? = before[index]?) (behind : last < position) :
    pendingAt none 0 after position = pendingAt none 0 before position := by
  induction position with
  | zero => omega
  | succ position ih =>
    by_cases here : position = last
    · subst here
      rw [pendingAt_succ_of_not_long stopBefore, pendingAt_succ_of_not_long stopAfter]
    · rw [pendingAt, pendingAt, same position (by omega), ih (by omega)]

theorem slotAt_congr_before (same : ∀ index ≤ position, after[index]? = before[index]?) :
    SlotAt kind after position entry record ↔ SlotAt kind before position entry record := by
  have visible : Visible after position ↔ Visible before position :=
    forall₂_congr fun index below => by rw [same index (Nat.le_of_lt below)]
  have pending := pendingAt_congr_before fun index below => same index (Nat.le_of_lt below)
  constructor
  · rintro ⟨found, seen, short, read⟩
    exact ⟨same position (Nat.le_refl _) ▸ found, visible.mp seen, short, pending ▸ read⟩
  · rintro ⟨found, seen, short, read⟩
    exact ⟨(same position (Nat.le_refl _)).trans found, visible.mpr seen, short, pending ▸ read⟩

/-- Records behind a range of changed entries are not affected if no end marker and no pending
long name is added or removed. -/
theorem slotAt_congr_behind (first last : Nat)
    (stopBefore : ∀ entry, before[last]? = some entry → mark entry ≠ .long)
    (stopAfter : ∀ entry, after[last]? = some entry → mark entry ≠ .long)
    (openBefore : ∀ index, first ≤ index → index ≤ last →
      ∀ entry, before[index]? = some entry → mark entry ≠ .finish)
    (openAfter : ∀ index, first ≤ index → index ≤ last →
      ∀ entry, after[index]? = some entry → mark entry ≠ .finish)
    (same : ∀ index, index < first ∨ last < index → after[index]? = before[index]?)
    (behind : last < position) :
    SlotAt kind after position entry record ↔ SlotAt kind before position entry record := by
  have pending := pendingAt_congr_behind stopBefore stopAfter
    (fun index above => same index (Or.inr above)) behind
  have visible : Visible after position ↔ Visible before position := by
    constructor
    · intro seen index below other found
      by_cases inside : first ≤ index ∧ index ≤ last
      · exact openBefore index inside.1 inside.2 other found
      · exact seen index below other ((same index (by omega)).trans found)
    · intro seen index below other found
      by_cases inside : first ≤ index ∧ index ≤ last
      · exact openAfter index inside.1 inside.2 other found
      · exact seen index below other ((same index (by omega)) ▸ found)
  constructor
  · rintro ⟨found, seen, short, read⟩
    exact ⟨same position (Or.inr behind) ▸ found, visible.mp seen, short, pending ▸ read⟩
  · rintro ⟨found, seen, short, read⟩
    exact ⟨(same position (Or.inr behind)).trans found, visible.mpr seen, short, pending ▸ read⟩

/-- Marking the entries of one record as deleted removes this record only. -/
theorem slotAt_delete {target : Nat} {removed : Record}
    (slot : SlotAt kind before target short removed) (order : first ≤ target)
    (longs : ∀ index, first ≤ index → index < target → MarkAt before index .long)
    (deleted : ∀ index, first ≤ index → index ≤ target → MarkAt after index .deleted)
    (same : ∀ index, index < first ∨ target < index → after[index]? = before[index]?) :
    SlotAt kind after position entry record ↔
      SlotAt kind before position entry record ∧ position ≠ target := by
  by_cases ahead : position < first
  · rw [slotAt_congr_before fun index below => same index (Or.inl (by omega))]
    exact ⟨fun kept => ⟨kept, by omega⟩, And.left⟩
  by_cases behind : target < position
  · rw [slotAt_congr_behind first target (fun _ => slot.markAt.ne nofun)
      (fun _ => (deleted target order (Nat.le_refl _)).ne nofun) ?_
      (fun index above below _ => (deleted index above below).ne nofun) same behind]
    · exact ⟨fun kept => ⟨kept, by omega⟩, And.left⟩
    · intro index above _ _ found
      by_cases here : index = target
      · subst here
        exact slot.markAt.ne nofun found
      · exact (longs index above (by omega)).ne nofun found
  · constructor
    · rintro ⟨found, _, marked, _⟩
      exact absurd marked ((deleted position (by omega) (by omega)).ne nofun found)
    · rintro ⟨⟨found, _, marked, _⟩, _⟩
      exact absurd marked ((longs position (by omega) (by omega)).ne nofun found)

/-- The entries that new ones replace were deleted, or stood at the end marker or behind it. In
the second case an end marker follows the new entries. -/
def Replaceable (before after : List (List UInt8)) (first last : Nat) : Prop :=
  ((∀ index, first ≤ index → index ≤ last →
      ∃ entry, before[index]? = some entry ∧ mark entry = .deleted) ∧
    ∀ index, last < index → after[index]? = before[index]?) ∨
  (∃ finish ≤ last, first ≤ finish ∧
      (∃ entry, before[finish]? = some entry ∧ mark entry = .finish) ∧
      ∀ index, first ≤ index → index < finish →
        ∃ entry, before[index]? = some entry ∧ mark entry = .deleted) ∧
    ∀ entry, after[last + 1]? = some entry → mark entry = .finish

/-- A replaceable entry is no record. -/
theorem Replaceable.not_slotAt (replaceable : Replaceable before after first last)
    (above : first ≤ position) (below : position ≤ last) :
    ¬SlotAt kind before position entry record := by
  rintro ⟨found, visible, marked, _⟩
  rcases replaceable with ⟨deleted, _⟩ | ⟨⟨finish, _, _, ⟨stop, there, kindOf⟩, deleted⟩, _⟩
  · exact absurd marked (MarkAt.ne (deleted position above below) nofun found)
  · by_cases order : position < finish
    · exact absurd marked (MarkAt.ne (deleted position above order) nofun found)
    · by_cases here : position = finish
      · subst here
        exact absurd marked (MarkAt.ne ⟨stop, there, kindOf⟩ nofun found)
      · exact visible finish (by omega) stop there kindOf

/-- Long-name entries and a short entry put in the place of such entries add one record. -/
theorem slotAt_insert (open_ : Visible before first) (order : first ≤ last)
    (replaceable : Replaceable before after first last)
    (same : ∀ index < first, after[index]? = before[index]?)
    (longs : ∀ index, first ≤ index → index < last → MarkAt after index .long)
    (found : after[last]? = some short) (marked : mark short = .short) :
    (∃ position entry, SlotAt kind after position entry record) ↔
      (∃ position entry, SlotAt kind before position entry record) ∨
        record = shortRecord kind (pendingAt none 0 after last) last short := by
  have openAfter : ∀ index, first ≤ index → index ≤ last →
      ∀ other, after[index]? = some other → mark other ≠ .finish := by
    intro index above below other there
    by_cases here : index = last
    · subst here
      exact MarkAt.ne ⟨short, found, marked⟩ nofun there
    · exact (longs index above (by omega)).ne nofun there
  have visible : Visible after last := by
    intro index below other there
    by_cases ahead : index < first
    · exact open_ index ahead other (same index ahead ▸ there)
    · exact openAfter index (by omega) (by omega) other there
  have ahead : ∀ position entry, position < first →
      (SlotAt kind after position entry record ↔ SlotAt kind before position entry record) :=
    fun position entry below =>
      slotAt_congr_before fun index small => same index (by omega)
  have behind : ∀ position entry, last < position →
      (SlotAt kind after position entry record ↔ SlotAt kind before position entry record) := by
    intro position entry above
    rcases replaceable with ⟨deleted, rest⟩ | ⟨⟨finish, small, large, stop, _⟩, ended⟩
    · exact slotAt_congr_behind first last
        (fun _ => MarkAt.ne (deleted last order (Nat.le_refl _)) nofun)
        (fun _ => MarkAt.ne ⟨short, found, marked⟩ nofun)
        (fun index above below _ => MarkAt.ne (deleted index above below) nofun) openAfter
        (fun index away => away.elim (same index) (rest index)) above
    · constructor
      · rintro ⟨there, seen, kindOf, _⟩
        by_cases next : position = last + 1
        · subst next
          rw [ended entry there] at kindOf
          cases kindOf
        · have inside : last + 1 < after.length := by
            have bound := (List.getElem?_eq_some_iff.mp there).1
            omega
          exact absurd (ended _ (List.getElem?_eq_getElem inside))
            (seen (last + 1) (by omega) _ (List.getElem?_eq_getElem inside))
      · rintro ⟨_, seen, _, _⟩
        obtain ⟨other, there, kindOf⟩ := stop
        exact absurd kindOf (seen finish (by omega) other there)
  constructor
  · rintro ⟨position, entry, slot⟩
    by_cases small : position < first
    · exact Or.inl ⟨position, entry, (ahead position entry small).mp slot⟩
    by_cases large : last < position
    · exact Or.inl ⟨position, entry, (behind position entry large).mp slot⟩
    by_cases here : position = last
    · subst here
      have entries := found.symm.trans slot.found
      cases entries
      exact Or.inr slot.record
    · exact absurd slot.short ((longs position (by omega) (by omega)).ne nofun slot.found)
  · rintro (⟨position, entry, slot⟩ | new)
    · by_cases small : position < first
      · exact ⟨position, entry, (ahead position entry small).mpr slot⟩
      by_cases large : last < position
      · exact ⟨position, entry, (behind position entry large).mpr slot⟩
      · exact absurd slot (replaceable.not_slotAt (by omega) (by omega))
    · exact ⟨last, short, found, visible, marked, new⟩

end Changes

/-! ### Changes of whole directories -/

/-- Entries that are all end markers add nothing behind a directory. -/
theorem readRecords_append_finish {tail : List (List UInt8)}
    (all : ∀ entry ∈ tail, mark entry = .finish) :
    readRecords kind pending index (items ++ tail) = readRecords kind pending index items := by
  induction items generalizing pending index with
  | nil =>
    cases tail with
    | nil => rfl
    | cons entry rest =>
      rw [nil_append, readRecords_cons, all entry mem_cons_self]
      rfl
  | cons entry rest ih =>
    rw [cons_append, readRecords_cons, readRecords_cons, ih]

/-- A record whose first cluster and size change if it is at an offset. -/
def Record.retarget (offset cluster size : Nat) (record : Record) : Record :=
  if record.offset = offset then { record with cluster := cluster, size := size } else record

theorem offset_le_of_mem (member : record ∈ readRecords kind pending index items) :
    index * entrySize ≤ record.offset := by
  obtain ⟨_, entry, _, _, _, rfl⟩ := mem_readRecords.mp member
  exact Nat.mul_le_mul_right _ (Nat.le_add_right ..)

/-- A changed short entry keeps its name, attributes and case bits. -/
structure SameName (entry new : List UInt8) : Prop where
  name : new.take 11 = entry.take 11
  attr : field new 11 = field entry 11
  case : field new 12 = field entry 12
  first : field new 0 = field entry 0

theorem SameName.mark (same : SameName entry new) : mark new = mark entry := by
  rw [Fat.mark, Fat.mark, skipped, skipped, same.name, same.attr, same.case, same.first]

theorem SameName.shortRecord (same : SameName entry new) (kind : Kind) (pending : Option LongName)
    (index : Nat) : shortRecord kind pending index new = { shortRecord kind pending index entry with
        cluster := entryCluster kind new, size := u32le new 28 } := by
  simp only [Fat.shortRecord, same.name, same.attr, same.case]

/-- Changing the first cluster and the size in a short entry changes them in its record and
nothing else. -/
theorem readRecords_set (found : items[position]? = some entry) (short : mark entry = .short)
    (same : SameName entry new) : readRecords kind pending index (items.set position new) =
      (readRecords kind pending index items).map
        (Record.retarget ((index + position) * entrySize) (entryCluster kind new)
          (u32le new 28)) := by
  induction items generalizing pending index position with
  | nil => cases found
  | cons first rest ih =>
    cases position with
    | zero =>
      cases found
      rw [set_cons_zero, readRecords_cons, readRecords_cons, same.mark, short, map_cons]
      have carried : carry pending index new = carry pending index entry := by
        rw [carry, carry, same.mark, short]
        rfl
      have others : (readRecords kind (carry pending index entry) (index + 1) rest).map
          (Record.retarget ((index + 0) * entrySize) (entryCluster kind new) (u32le new 28)) =
          readRecords kind (carry pending index entry) (index + 1) rest := by
        refine (map_congr_left fun record member => ?_).trans (map_id _)
        have bound := offset_le_of_mem member
        refine if_neg ?_
        unfold entrySize at *
        omega
      simp only [carried, others, same.shortRecord]
      congr 1
      exact (if_pos rfl).symm
    | succ position =>
      rw [set_cons_succ, readRecords_cons, readRecords_cons]
      have later : readRecords kind (carry pending index first) (index + 1)
          (rest.set position new) = _ :=
        ih (getElem?_cons_succ.symm.trans found)
      have place : index + 1 + position = index + (position + 1) := by omega
      rw [place] at later
      cases kindOf : mark first with
      | finish => rfl
      | short =>
        simp only [later, map_cons]
        congr 1
        refine (if_neg ?_).symm
        show ¬index * entrySize = _
        unfold entrySize
        omega
      | deleted => exact later
      | long => exact later
      | skipped => exact later

/-! ### The search for room -/

/-- A run of entries that are deleted, up to its end or to the end marker. -/
def FreeRun (items : List (List UInt8)) (first count : Nat) : Prop :=
  (∀ index, first ≤ index → index < first + count →
      ∃ entry, items[index]? = some entry ∧ mark entry = .deleted) ∨
  ∃ finish < first + count, first ≤ finish ∧
    (∃ entry, items[finish]? = some entry ∧ mark entry = .finish) ∧
    ∀ index, first ≤ index → index < finish →
      ∃ entry, items[index]? = some entry ∧ mark entry = .deleted

theorem mark_eq_finish : mark entry = .finish ↔ field entry 0 = 0 := by
  unfold mark
  split
  · simp_all
  · split
    · simp_all
    · split
      · simp_all
      · split <;> simp_all

theorem mark_eq_deleted : mark entry = .deleted ↔ field entry 0 = 0xe5 := by
  unfold mark
  split
  · simp_all
  · split
    · simp_all
    · split
      · simp_all
      · split <;> simp_all

/-- What the search knows: a run of free entries ends in front of an index, and it reaches the
end marker or there is none so far. -/
inductive Searching (items : List (List UInt8)) (run index : Nat) : Bool → Prop
  | running : run ≤ index → Visible items index →
      (∀ other, index - run ≤ other → other < index →
        ∃ entry, items[other]? = some entry ∧ mark entry = .deleted) →
      Searching items run index false
  | ended (finish : Nat) : run ≤ index → Visible items (index - run) → index - run ≤ finish →
      finish < index → (∃ entry, items[finish]? = some entry ∧ mark entry = .finish) →
      (∀ other, index - run ≤ other → other < finish →
        ∃ entry, items[other]? = some entry ∧ mark entry = .deleted) →
      Searching items run index true

theorem Visible.succ (visible : Visible items position) (found : items[position]? = some entry)
    (open_ : mark entry ≠ .finish) : Visible items (position + 1) := by
  intro index _ other there
  by_cases here : index = position
  · subst here
    rw [found] at there
    cases there
    exact open_
  · exact visible index (by omega) other there

theorem Visible.mono {smaller : Nat} (visible : Visible items position)
    (order : smaller ≤ position) : Visible items smaller :=
  fun index below => visible index (by omega)

/-- A run that the search has found. -/
theorem Searching.freeRun (searching : Searching items run index ended) :
    Visible items (index - run) ∧ FreeRun items (index - run) run := by
  cases searching with
  | running inside visible deleted =>
    exact ⟨visible.mono (by omega), Or.inl fun other above below => deleted other above (by omega)⟩
  | ended finish inside visible above below stop deleted =>
    exact ⟨visible, Or.inr ⟨finish, by omega, above, stop, deleted⟩⟩

/-- One more free entry. -/
theorem Searching.extend (searching : Searching items run index ended)
    (found : items[index]? = some entry)
    (free : (ended || field entry 0 == 0 || field entry 0 == 0xe5) = true) :
    Searching items (run + 1) (index + 1) (ended || field entry 0 == 0) := by
  have start : index + 1 - (run + 1) = index - run := by omega
  cases searching with
  | ended finish inside visible above below stop deleted =>
    rw [Bool.true_or]
    exact .ended finish (by omega) (start ▸ visible) (by omega) (by omega) stop (start ▸ deleted)
  | running inside visible deleted =>
    rw [Bool.false_or] at free ⊢
    by_cases zero : field entry 0 = 0
    · rw [zero]
      exact .ended index (by omega) (visible.mono (by omega)) (by omega) (by omega)
        ⟨entry, found, mark_eq_finish.mpr zero⟩ (start ▸ deleted)
    · have gone : mark entry = .deleted := mark_eq_deleted.mpr (by simpa [zero] using free)
      rw [beq_eq_false_iff_ne.mpr zero]
      refine .running (by omega) (visible.succ found (by rw [gone]; exact nofun)) ?_
      intro other _ _
      by_cases here : other = index
      · subst here
        exact ⟨entry, found, gone⟩
      · exact deleted other (by omega) (by omega)

/-- The search finds entries that can be replaced. -/
theorem searchSlots_spec {all : List (List UInt8)} {start : Nat} (suffix : items = all.drop index)
    (searching : Searching all run index ended)
    (found : searchSlots needed run ended index items = some start) :
    ∃ first, start = first * entrySize ∧ first + needed ≤ all.length ∧ Visible all first ∧
      FreeRun all first needed := by
  induction items generalizing run index ended with
  | nil => cases found
  | cons entry rest ih =>
    have here : all[index]? = some entry := by
      rw [← head?_drop, ← suffix]
      rfl
    have next : rest = all.drop (index + 1) := by
      rw [← tail_drop, ← suffix]
      rfl
    rw [searchSlots] at found
    by_cases free : (ended || field entry 0 == 0 || field entry 0 == 0xe5) = true
    · rw [if_pos free] at found
      have extended := searching.extend here free
      by_cases enough : run + 1 = needed
      · rw [if_pos enough] at found
        cases found
        subst enough
        obtain ⟨visible, freeRun⟩ := extended.freeRun
        have inside := (List.getElem?_eq_some_iff.mp here).1
        refine ⟨index + 1 - (run + 1), rfl, ?_, visible, freeRun⟩
        cases searching <;> omega
      · rw [if_neg enough] at found
        exact ih next extended found
    · rw [if_neg free] at found
      simp only [Bool.not_eq_true, Bool.or_eq_false_iff, beq_eq_false_iff_ne] at free
      obtain ⟨⟨notEnded, notZero⟩, _⟩ := free
      subst notEnded
      rw [beq_eq_false_iff_ne.mpr notZero] at found
      refine ih next (.running (Nat.zero_le _) ?_ ?_) found
      · cases searching with
        | running _ visible _ =>
          exact visible.succ here fun finish => notZero (mark_eq_finish.mp finish)
      · intro _ _ _
        omega

theorem freeSlots_spec {start : Nat} (found : freeSlots data needed = some start) :
    ∃ first, start = first * entrySize ∧ first + needed ≤ (entries data).length ∧
      Visible (entries data) first ∧ FreeRun (entries data) first needed := by
  refine searchSlots_spec (drop_zero.symm : _ = (entries data).drop 0)
    (.running (Nat.le_refl _) ?_ ?_) found
  · exact fun _ below => absurd below (Nat.not_lt_zero _)
  · exact fun _ _ below => absurd below (Nat.not_lt_zero _)

theorem freeSlots_room {start : Nat} (found : freeSlots data needed = some start) :
    start + needed * entrySize ≤ data.length := by
  obtain ⟨_, rfl, inside, _⟩ := freeSlots_spec found
  rw [length_entries] at inside
  rw [← Nat.add_mul]
  exact (Nat.le_div_iff_mul_le (by decide)).mp inside

theorem freeSlots_at (found : freeSlots data needed = some (first * entrySize)) :
    first + needed ≤ (entries data).length ∧ Visible (entries data) first ∧
      FreeRun (entries data) first needed := by
  obtain ⟨_, same, spec⟩ := freeSlots_spec found
  rw [Nat.eq_of_mul_eq_mul_right (by decide) same]
  exact spec

end Reading

end Mmurtl.Fat

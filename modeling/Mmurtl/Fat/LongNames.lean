/-
This file proves which long names are read back as they were written. The entries of a
record are read in their order, each filling thirteen units of the name; the units that
are left over hold a zero and then ones. A name is read back unless it contains U+FFFF,
which the reader takes for a unit that is left over: it then falls back to the short name.
-/

import Mmurtl.Fat.Build

namespace Mmurtl.Fat

open Bytes List

variable {place : Nat} {name : List Char}

/-! ### One long-name entry -/

section Entry

variable {units : List Nat} {count ordinal : Nat} {sum : UInt8}

theorem nameUnit_lt (small : ∀ unit ∈ units, unit < 65536) (offset : Nat) :
    nameUnit units offset < 65536 := by
  rw [nameUnit]
  cases found : units[offset]? with
  | some unit => exact small unit (mem_of_getElem? found)
  | none =>
    rw [Option.getD_none]
    split <;> decide

/-- A long-name entry holds thirteen units of the name. -/
theorem units_longEntry (small : ∀ unit ∈ units, unit < 65536) :
    lfnPositions.map (u16le (longEntry units count ordinal sum)) =
      (List.range 13).map fun index => nameUnit units ((ordinal - 1) * 13 + index) := by
  have reads : ∀ index, (UInt8.ofNat (nameUnit units index)).toNat +
      256 * (UInt8.ofNat (nameUnit units index / 256)).toNat = nameUnit units index := by
    intro index
    have bound := nameUnit_lt small index
    rw [UInt8.toNat_ofNat', UInt8.toNat_ofNat']
    omega
  simp only [lfnPositions, longEntry, u16le, byteAt, le16, cons_append, nil_append,
    map_cons, map_nil, getElem?_cons_succ, getElem?_cons_zero, Option.getD_some, reads]
  rfl

theorem field_longEntry :
    field (longEntry units count ordinal sum) 0 =
        (UInt8.ofNat ordinal ||| if ordinal = count then 0x40 else 0) ∧
      field (longEntry units count ordinal sum) 13 = sum ∧
      field (longEntry units count ordinal sum) 12 = 0 ∧
      u16le (longEntry units count ordinal sum) 26 = 0 := by
  simp only [field, longEntry, u16le, byteAt, le16, cons_append, nil_append,
    getElem?_cons_succ, getElem?_cons_zero, Option.getD_some]
  exact ⟨trivial, trivial, trivial, rfl⟩

/-- The first byte of a long-name entry: its ordinal, and whether it is the first one. -/
theorem ordinal_longEntry (last : ordinal ≤ 20) (flag : UInt8) (flags : flag = 0x40 ∨ flag = 0) :
    ((UInt8.ofNat ordinal ||| flag) &&& 0x1f).toNat = ordinal ∧
      (UInt8.ofNat ordinal ||| flag) &&& 0xa0 = 0 ∧
      ((UInt8.ofNat ordinal ||| flag) &&& 0x40 = 0 ↔ flag = 0) := by
  have all : ∀ number < 21, ∀ flag ∈ [(0x40 : UInt8), 0],
      ((UInt8.ofNat number ||| flag) &&& 0x1f).toNat = number ∧
        (UInt8.ofNat number ||| flag) &&& 0xa0 = 0 ∧
        ((UInt8.ofNat number ||| flag) &&& 0x40 = 0 ↔ flag = 0) := by decide +kernel
  refine all ordinal (by omega) flag ?_
  rw [mem_pair]
  exact flags

end Entry

/-! ### The entries of a name -/

/-- The long name while its entries down to some ordinal are still to come. -/
def partlyRead (units : List Nat) (count : Nat) (sum : UInt8) (left : Nat) : LongName where
  units := (List.range 260).map fun place =>
    if left * 13 ≤ place ∧ place < count * 13 then nameUnit units place else 0xffff
  remaining := left
  total := count
  sum := sum
  start := 0

/-- The long-name entries with the ordinals down from a number. -/
def longEntries (units : List Nat) (count : Nat) (sum : UInt8) (left : Nat) : List (List UInt8) :=
  (List.range left).map fun index => longEntry units count (left - index) sum

section Entries

variable {units : List Nat} {count left : Nat} {sum : UInt8}

theorem length_partlyRead : (partlyRead units count sum left).units.length = 260 := by
  rw [partlyRead, length_map, length_range]

theorem getElem?_partlyRead (small : place < 260) :
    (partlyRead units count sum left).units[place]? =
      some (if left * 13 ≤ place ∧ place < count * 13 then nameUnit units place else 0xffff) := by
  rw [partlyRead, getElem?_map, getElem?_range small]
  rfl

theorem longEntries_succ :
    longEntries units count sum (left + 1) =
      longEntry units count (left + 1) sum :: longEntries units count sum left := by
  rw [longEntries, range_succ_eq_map, map_cons, map_map]
  refine congrArg _ (map_congr_left fun index _ => ?_)
  show longEntry units count (left + 1 - (index + 1)) sum = _
  rw [Nat.add_sub_add_right]

theorem extend_start (pending : LongName) (start : Nat) (entry : List UInt8) :
    ({ pending with start := start } : LongName).extend entry =
      (pending.extend entry).map fun extended => { extended with start := start } := by
  unfold LongName.extend
  dsimp only
  split <;> rfl

variable (small : ∀ unit ∈ units, unit < 65536)
include small

/-- One more entry fills thirteen units. -/
theorem extend_partlyRead (bounded : count ≤ 20) (inside : left < count) :
    (partlyRead units count sum (left + 1)).extend (longEntry units count (left + 1) sum) =
      some (partlyRead units count sum left) := by
  obtain ⟨first, checked, zero, cluster⟩ :=
    @field_longEntry units count (left + 1) sum
  have flagged : (if left + 1 = count then (0x40 : UInt8) else 0) = 0x40 ∨
      (if left + 1 = count then (0x40 : UInt8) else 0) = 0 := by
    split
    · exact .inl rfl
    · exact .inr rfl
  obtain ⟨ordinal, clear, -⟩ := ordinal_longEntry (show left + 1 ≤ 20 by omega) _ flagged
  rw [LongName.extend, first, checked, zero, cluster, ordinal, clear, units_longEntry small,
    if_neg (by simp [partlyRead])]
  refine congrArg some (congrArg (fun units => LongName.mk units left count sum 0) ?_)
  refine ext_getElem? fun place => ?_
  show (patch _ (left * 13) _)[place]? = (partlyRead units count sum left).units[place]?
  rw [getElem?_patch (by rw [length_partlyRead, length_map, length_range]; omega),
    length_map, length_range]
  by_cases beyond : place < 260
  · rw [getElem?_partlyRead beyond, getElem?_partlyRead beyond]
    by_cases before : place < left * 13
    · rw [if_pos before, if_neg (by omega), if_neg (by omega)]
    · rw [if_neg before]
      by_cases here : place < left * 13 + 13
      · rw [if_pos here, if_pos (by omega), getElem?_map, getElem?_range (by omega)]
        show some (nameUnit units (left * 13 + (place - left * 13))) = _
        rw [Nat.add_sub_cancel' (by omega)]
      · rw [if_neg here]
        refine congrArg some (if_congr ?_ rfl rfl)
        omega
  · rw [if_neg (by omega), if_neg (by omega),
      List.getElem?_eq_none (by rw [length_partlyRead]; omega),
      List.getElem?_eq_none (by rw [length_partlyRead]; omega)]

variable [CaseMapping]

/-- The first entry of a name starts a long name, whatever was read before it. -/
theorem carry_longEntry_first (bounded : left + 1 ≤ 20) (pending : Option LongName) (index : Nat) :
    carry pending index (longEntry units (left + 1) (left + 1) sum) =
      some { partlyRead units (left + 1) sum left with start := index * entrySize } := by
  have long := mark_longEntry units (left + 1) sum (Nat.succ_pos left) bounded
  have flag := ordinal_longEntry bounded 0x40 (.inl rfl)
  obtain ⟨first, checked, -⟩ := @field_longEntry units (left + 1) (left + 1) sum
  rw [if_pos rfl] at first
  have begun : LongName.begin index (longEntry units (left + 1) (left + 1) sum) =
      some { partlyRead units (left + 1) sum (left + 1) with start := index * entrySize } := by
    have blank : (partlyRead units (left + 1) sum (left + 1)).units =
        List.replicate 260 0xffff := by
      refine ext_getElem? fun place => ?_
      rw [getElem?_replicate]
      by_cases inside : place < 260
      · rw [if_pos inside, getElem?_partlyRead inside, if_neg (by omega)]
      · rw [if_neg inside, List.getElem?_eq_none (by rw [length_partlyRead]; omega)]
    rw [LongName.begin, first, checked, flag.1, if_pos ⟨Nat.succ_pos left, bounded, flag.2.1⟩,
      ← blank]
    rfl
  rw [carry, if_pos long, LongName.read, first, if_pos (fun zero => by cases flag.2.2.mp zero),
    begun, Option.bind_some, extend_start, extend_partlyRead small bounded (Nat.lt_succ_self left)]
  rfl

/-- Any other entry of a name continues the long name. -/
theorem carry_longEntry_next (bounded : count ≤ 20) (inside : left + 1 < count)
    (start index : Nat) :
    carry (some { partlyRead units count sum (left + 1) with start := start }) index
        (longEntry units count (left + 1) sum) =
      some { partlyRead units count sum left with start := start } := by
  have long := mark_longEntry units count sum (Nat.succ_pos left) (by omega)
  have later := ((ordinal_longEntry (show left + 1 ≤ 20 by omega) 0 (.inr rfl)).2.2).mpr rfl
  have first := (@field_longEntry units count (left + 1) sum).1
  rw [if_neg (by omega)] at first
  rw [carry, if_pos long, LongName.read, first, if_neg (not_not_intro later), Option.bind_some,
    extend_start, extend_partlyRead small bounded (by omega)]
  rfl

/-- The long name that is pending inside the entries of a name and right behind them. -/
theorem pendingAt_longEntries {items : List (List UInt8)} {first : Nat} (bounded : count ≤ 20)
    (longs : ∀ index < count,
      items[first + index]? = some (longEntry units count (count - index) sum))
    {done : Nat} (some_ : 0 < done) (inside : done ≤ count) :
    pendingAt none 0 items (first + done) =
      some { partlyRead units count sum (count - done) with start := first * entrySize } := by
  induction done with
  | zero => cases some_
  | succ done ih =>
    rw [← Nat.add_assoc, pendingAt, longs done inside, Nat.zero_add]
    dsimp only
    by_cases begin : done = 0
    · subst begin
      obtain ⟨left, rfl⟩ := Nat.exists_eq_add_of_lt (Nat.lt_of_succ_le inside)
      rw [Nat.zero_add] at *
      rw [Nat.sub_zero, carry_longEntry_first small bounded]
      rfl
    · obtain ⟨left, same⟩ : ∃ left, count - done = left + 1 := ⟨count - done - 1, by omega⟩
      rw [ih (Nat.pos_of_ne_zero begin) (by omega), same,
        carry_longEntry_next small bounded (by omega), ← Nat.sub_sub, same]
      rfl

/-- All entries but the first of a name are read one after another. -/
theorem readRecords_longEntries (bounded : count ≤ 20) (inside : left < count) (kind : Kind)
    (index : Nat) (rest : List (List UInt8)) :
    readRecords kind (some (partlyRead units count sum left)) index
        (longEntries units count sum left ++ rest) =
      readRecords kind (some (partlyRead units count sum 0)) (index + left) rest := by
  induction left generalizing index with
  | zero => rfl
  | succ left ih =>
    have long := mark_longEntry units count sum (Nat.succ_pos left) (by omega)
    have next : carry (some (partlyRead units count sum (left + 1))) index
        (longEntry units count (left + 1) sum) = some (partlyRead units count sum left) :=
      carry_longEntry_next small bounded inside 0 index
    rw [longEntries_succ, cons_append, readRecords_cons, long]
    rw [next, ih (by omega), Nat.add_right_comm, Nat.add_assoc]

/-- The entries of a name are read one after another. -/
theorem readRecords_longName (bounded : count ≤ 20) (positive : 0 < count) (kind : Kind)
    (rest : List (List UInt8)) :
    readRecords kind none 0 (longEntries units count sum count ++ rest) =
      readRecords kind (some (partlyRead units count sum 0)) count rest := by
  obtain ⟨left, rfl⟩ := Nat.exists_eq_add_of_lt positive
  rw [Nat.zero_add] at *
  have long := mark_longEntry units (left + 1) sum (Nat.succ_pos left) bounded
  have next : carry none 0 (longEntry units (left + 1) (left + 1) sum) =
      some (partlyRead units (left + 1) sum left) := by
    rw [carry_longEntry_first small bounded, Nat.zero_mul]
    rfl
  rw [longEntries_succ, cons_append, readRecords_cons, long]
  rw [next, readRecords_longEntries small bounded (Nat.lt_succ_self left), Nat.add_comm 1]

end Entries

/-! ### The text of a name -/

/-- The units that a name leaves over in its last entry. -/
def filler : Nat → List Nat
  | 0 => []
  | more + 1 => 0 :: List.replicate more 0xffff

theorem length_filler (extra : Nat) : (filler extra).length = extra := by
  cases extra with
  | zero => rfl
  | succ more => rw [filler, length_cons, length_replicate]

theorem getElem?_filler {extra : Nat} (inside : place < extra) :
    (filler extra)[place]? = some (if place = 0 then 0 else 0xffff) := by
  cases extra with
  | zero => cases inside
  | succ more =>
    cases place with
    | zero => rfl
    | succ place =>
      rw [filler, getElem?_cons_succ, getElem?_replicate_of_lt (by omega)]
      rfl

theorem map_nameUnit (units : List Nat) (extra : Nat) :
    (List.range (units.length + extra)).map (nameUnit units) = units ++ filler extra := by
  refine ext_getElem? fun place => ?_
  by_cases inside : place < units.length + extra
  · rw [getElem?_map, getElem?_range inside, Option.map_some, nameUnit]
    by_cases named : place < units.length
    · rw [getElem?_append_left named, List.getElem?_eq_getElem named, Option.getD_some]
    · rw [getElem?_append_right (by omega), getElem?_filler (by omega),
        List.getElem?_eq_none (by omega), Option.getD_none]
      refine congrArg some (if_congr ?_ rfl rfl)
      omega
  · rw [List.getElem?_eq_none (by rw [length_map, length_range]; omega),
      List.getElem?_eq_none (by rw [length_append, length_filler]; omega)]

section Text

variable {units : List Nat}

/-- The end of a name is where its units end. -/
theorem findIdx_filler (nonzero : ∀ unit ∈ units, unit ≠ 0) (extra : Nat) :
    (units ++ filler extra).findIdx (· == 0) = units.length := by
  have none : units.findIdx (· == 0) = units.length :=
    findIdx_eq_length_of_false fun unit member => beq_false_of_ne (nonzero unit member)
  have start : (filler extra).findIdx (· == 0) = 0 := by
    cases extra with
    | zero => rfl
    | succ more => exact findIdx_cons.trans rfl
  rw [findIdx_append, none, if_neg (Nat.lt_irrefl _), start, Nat.zero_add]

/-- Behind the end of a name there are only ones. -/
theorem drop_filler (extra : Nat) :
    ((units ++ filler extra).drop (units.length +
      if units.length < (units ++ filler extra).length then 1 else 0)).all
        (· == 0xffff) = true := by
  rw [length_append, length_filler, ← drop_drop, drop_left]
  cases extra with
  | zero =>
    rw [filler, drop_nil]
    rfl
  | succ more =>
    rw [if_pos (by omega), filler, drop_one, tail_cons, all_replicate]
    simp

end Text

theorem printable_of_valid (valid : validName name = true) :
    name ≠ [] ∧ ∀ c ∈ name, 0x20 ≤ c.toNat := by
  simp only [validName, Bool.not_eq_true', Bool.or_eq_false_iff, isEmpty_eq_false_iff,
    any_eq_false, decide_eq_false_iff_not, Bool.or_eq_true, decide_eq_true_eq, not_or,
    Nat.not_lt] at valid
  exact ⟨valid.1.1.1.1.1.1, fun c member => (valid.2 c member).1⟩

theorem nonzero_of_valid (valid : validName name = true) : ∀ unit ∈ encodeUtf16 name, unit ≠ 0 := by
  intro _ member
  rcases mem_encodeUtf16 member with ⟨c, inside, _, _⟩ | _
  · have printable := (printable_of_valid valid).2 c inside
    omega
  · omega

theorem length_encodeUtf16_pos (some : name ≠ []) : 0 < (encodeUtf16 name).length := by
  obtain ⟨c, _, rfl⟩ := exists_cons_of_ne_nil some
  by_cases small : c.toNat < 0x10000
  · rw [encodeUtf16_cons_small small, length_cons]
    exact Nat.succ_pos _
  · rw [encodeUtf16_cons_large small, length_cons]
    exact Nat.succ_pos _

/-- The character that the driver cannot tell from a unit that is left over. -/
def noncharacter : Char := Char.ofNat 0xffff

theorem contains_noncharacter (name : List Char) :
    (encodeUtf16 name).contains 0xffff = true ↔ noncharacter ∈ name :=
  contains_iff_mem.trans (toNat_mem_encodeUtf16 (c := noncharacter) (by decide))

/-- The long name that was read, unless one of its characters is U+FFFF. -/
theorem text_partlyRead (valid : validName name = true) (short : List UInt8) :
    (partlyRead (encodeUtf16 name) (((encodeUtf16 name).length + 12) / 13) (checksum short)
        0).text short =
      if noncharacter ∈ name then none else some name := by
  have positive := length_encodeUtf16_pos (printable_of_valid valid).1
  have bounded := length_encodeUtf16_of_valid valid
  obtain ⟨extra, total⟩ : ∃ extra, ((encodeUtf16 name).length + 12) / 13 * 13 =
      (encodeUtf16 name).length + extra := Nat.exists_eq_add_of_le (by omega)
  have units : (partlyRead (encodeUtf16 name) (((encodeUtf16 name).length + 12) / 13)
      (checksum short) 0).units.take (((encodeUtf16 name).length + 12) / 13 * 13) =
      encodeUtf16 name ++ filler extra := by
    rw [← map_nameUnit, ← total]
    refine ext_getElem? fun place => ?_
    rw [getElem?_take, getElem?_map]
    by_cases inside : place < ((encodeUtf16 name).length + 12) / 13 * 13
    · rw [if_pos inside, getElem?_partlyRead (by omega), getElem?_range inside,
        if_pos ⟨by omega, inside⟩]
      rfl
    · rw [if_neg inside, List.getElem?_eq_none (by rw [length_range]; omega)]
      rfl
  rw [LongName.text, if_pos ⟨show 0 < ((encodeUtf16 name).length + 12) / 13 by omega, rfl, rfl⟩]
  dsimp only
  rw [show (partlyRead (encodeUtf16 name) (((encodeUtf16 name).length + 12) / 13)
    (checksum short) 0).total = ((encodeUtf16 name).length + 12) / 13 from rfl, units,
    findIdx_filler (nonzero_of_valid valid), take_left]
  by_cases inside : noncharacter ∈ name
  · rw [if_pos inside, if_neg]
    rintro ⟨-, -, absent, -⟩
    rw [(contains_noncharacter name).mpr inside] at absent
    cases absent
  · have absent : (!(encodeUtf16 name).contains 0xffff) = true := by
      rw [Bool.not_eq_true', Bool.eq_false_iff]
      exact fun member => inside ((contains_noncharacter name).mp member)
    rw [if_neg inside, if_pos ⟨positive, bounded, absent, drop_filler extra⟩,
      decodeUtf16_encodeUtf16, Option.filter_some, valid]
    rfl

/-! ### The record of a new set of entries -/

set_option maxRecDepth 4096 in
theorem oemChar_ne_noncharacter {byte : UInt8} (short : ShortByte byte) :
    oemChar byte ≠ noncharacter :=
  byte_cases (fun byte => ShortByte byte → oemChar byte ≠ noncharacter) (by decide) byte short

section Decoded

variable [CaseMapping] {name : List Char} {short base extension : List UInt8} {first size : Nat}
  {attr : UInt8} {kind : Kind}

theorem shortRecord_shortEntry (length : short.length = 11) (small : first < clusterLimit kind)
    (fits : size < 4294967296) (pending : Option LongName) (index : Nat) :
    shortRecord kind pending index (shortEntry short first size attr kind) =
      { name := (pending.bind fun pending => pending.text short).getD (aliasName short 0)
        aliasName := aliasName short 0
        short := short
        attr := attr
        cluster := first
        size := size
        offset := index * entrySize
        start := (pending.bind fun pending => (pending.text short).map fun _ => pending.start).getD
          (index * entrySize) } := by
  obtain ⟨flags, case⟩ := field_shortEntry length first size attr kind
  have blank := length_blankEntry length attr
  unfold shortRecord
  rw [take_shortEntry length, flags, case, shortEntry_eq,
    entryCluster_retargeted_of_lt blank first size kind small,
    u32le_retargeted blank first size kind fits]
  cases pending with
  | none => rfl
  | some pending =>
    cases found : pending.text short with
    | none =>
      simp only [Option.bind_some, found]
      rfl
    | some text =>
      simp only [Option.bind_some, found]
      rfl

theorem noncharacter_notMem_aliasName (padded : Padded short base extension) :
    noncharacter ∉ aliasName short 0 := by
  have absent : ∀ part : List UInt8, (∀ byte ∈ part, ShortByte byte) →
      noncharacter ∉ part.map oemChar := by
    intro _ bytes member
    obtain ⟨byte, inside, same⟩ := mem_map.mp member
    exact oemChar_ne_noncharacter (bytes byte inside) same
  rw [padded.aliasName, mem_append, not_or]
  refine ⟨absent base padded.base_bytes, ?_⟩
  split
  · exact not_mem_nil
  · rw [mem_cons, not_or]
    exact ⟨by decide, absent extension padded.extension_bytes⟩

/-- The record that is read has the name that was written, or the short name where that is a
name with U+FFFF. -/
theorem records_entrySet (valid : validName name = true) (padded : Padded short base extension)
    (long : attr ≠ 0x0f) (label : attr &&& 8 = 0) (small : first < clusterLimit kind)
    (fits : size < 4294967296) :
    records (entrySet name short first size attr kind) kind = [{
      name := if noncharacter ∈ name then aliasName short 0 else name
      aliasName := aliasName short 0
      short := short
      attr := attr
      cluster := first
      size := size
      offset := longCount name short * entrySize
      start := if noncharacter ∈ name then longCount name short * entrySize else 0 }] := by
  obtain ⟨flags, case⟩ := field_shortEntry padded.length first size attr kind
  have named : Padded ((shortEntry short first size attr kind).take 11) base extension := by
    rw [take_shortEntry padded.length]
    exact padded
  have mark := mark_of_padded named case (flags.symm ▸ long) (flags.symm ▸ label)
  have last : ∀ pending index,
      readRecords kind pending index [shortEntry short first size attr kind] =
        [shortRecord kind pending index (shortEntry short first size attr kind)] := by
    intro _ _
    rw [readRecords_cons, mark]
    rfl
  rw [records, entries_entrySet name padded.length]
  by_cases direct : name = aliasName short 0
  · have none : longCount name short = 0 := if_pos direct
    have plain : noncharacter ∉ name := direct ▸ noncharacter_notMem_aliasName padded
    rw [none, range_zero, map_nil, nil_append, last,
      shortRecord_shortEntry padded.length small fits, if_neg plain, if_neg plain, direct]
    rfl
  · have count : longCount name short = ((encodeUtf16 name).length + 12) / 13 := if_neg direct
    have positive := length_encodeUtf16_pos (printable_of_valid valid).1
    have bounded := longCount_le valid short
    have longs := @readRecords_longName (encodeUtf16 name) (longCount name short) (checksum short)
      (fun unit member => encodeUtf16_lt member) _ bounded (by omega) kind
      [shortEntry short first size attr kind]
    rw [longEntries] at longs
    rw [longs, last, shortRecord_shortEntry padded.length small fits, Option.bind_some,
      Option.bind_some, count, text_partlyRead valid]
    by_cases plain : noncharacter ∈ name
    · rw [if_pos plain, if_pos plain, if_pos plain]
      rfl
    · rw [if_neg plain, if_neg plain, if_neg plain]
      rfl

end Decoded

/-- The record that was written is the only one that is read. -/
structure RoundTrip [CaseMapping] (name : List Char) (short : List UInt8) (first size : Nat)
    (attr : UInt8) (kind : Kind) (record : Record) : Prop where
  only : records (entrySet name short first size attr kind) kind = [record]
  offset : record.offset + entrySize = (entrySet name short first size attr kind).length
  start : record.start = 0
  sameName : record.name = name
  sameShort : record.short = short
  sameAttr : record.attr = attr
  sameCluster : record.cluster = first
  sameSize : record.size = size

/-- A record is read back as it was written, unless its name contains U+FFFF. -/
theorem roundTrip_iff [CaseMapping] {name : List Char} {existing : List Record}
    {short : List UInt8} {first size : Nat} {attr : UInt8} {kind : Kind}
    (valid : validateName name = .ok ())
    (chosen : shortName name (existing.map Record.short) = .ok short)
    (small : first < clusterLimit kind) (fits : size < 4294967296)
    (plain : attr = 0x20 ∨ attr = 0x10) :
    (∃ record, RoundTrip name short first size attr kind record) ↔ noncharacter ∉ name := by
  have accepted : validName name = true := by
    by_contra refused
    rw [validateName, if_neg refused] at valid
    cases valid
  obtain ⟨-, _, _, padded⟩ := shortName_spec chosen
  have flags : attr ≠ 0x0f ∧ attr &&& 8 = 0 := by
    rcases plain with rfl | rfl <;> decide
  have read := records_entrySet accepted padded flags.1 flags.2 small fits
  constructor
  · rintro ⟨_, trip⟩ inside
    rw [trip.only, if_pos inside] at read
    have named := trip.sameName
    rw [(List.cons.inj read).1] at named
    refine noncharacter_notMem_aliasName padded ?_
    rw [show aliasName short 0 = name from named]
    exact inside
  · intro absent
    rw [if_neg absent, if_neg absent] at read
    refine ⟨_, read, ?_, rfl, rfl, rfl, rfl, rfl, rfl⟩
    rw [length_entrySet name padded.length, Nat.succ_mul]

/-- The short name of `U+FFFF`. -/
def replacedShort : List UInt8 := [0x5f, 0x7e, 0x31, 0x20, 0x20, 0x20, 0x20, 0x20, 0x20, 0x20, 0x20]

/-- The name that is one U+FFFF is accepted, and read back as `_~1`. -/
theorem not_roundTrip_noncharacter :
    validateName [noncharacter] = .ok () ∧ shortName [noncharacter] [] = .ok replacedShort ∧
      ¬ ∃ record, @RoundTrip asciiMapping [noncharacter] replacedShort 2 7 0x20 .fat16 record := by
  refine ⟨by decide, by decide, ?_⟩
  rintro ⟨_, only, -, -, sameName, -⟩
  have read : (@records asciiMapping (@entrySet asciiMapping [noncharacter] replacedShort 2 7 0x20
      .fat16) .fat16).map Record.name = [['_', '~', '1']] := by
    decide +kernel
  rw [only, List.map_singleton, sameName] at read
  exact absurd read (by decide)

/-- A name of one character that takes two units is read back. -/
theorem roundTrip_pair :
    ∃ record, @RoundTrip asciiMapping [Char.ofNat 0x1f600] replacedShort 2 7 0x20 .fat16 record :=
  (@roundTrip_iff asciiMapping [Char.ofNat 0x1f600] [] replacedShort 2 7 0x20 .fat16 (by decide)
    (by decide) (by decide) (by decide) (.inl rfl)).mpr (by decide)

end Mmurtl.Fat

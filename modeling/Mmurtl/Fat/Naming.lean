/-
This file is about the names by which the records of a directory are found: the name and the
alias of each record, compared without regard to case. It says when these names stay apart
while files and directories are created and deleted.

The driver compares a new name with all names and aliases, and a new short name with all
short names. It does not compare the new alias with the names, which may be equal up to case
without being ASCII.
-/

import Mmurtl.Fat.Listing
import Mmurtl.Fat.Runs

namespace Mmurtl.Fat

open Bytes List

variable {first second name : List Char} {record : Record} {listed : Record → Prop}
  {clusters : List Nat} {holds : Store → Prop} {operations : List Operation} {bytes : List UInt8}

/-! ### Aliases -/

/-- The byte of a character of an alias. -/
def charByte (c : Char) : UInt8 := UInt8.ofNat c.toNat

set_option maxRecDepth 4096 in
/-- A character of an alias is ASCII, in upper case, and stands for one byte. -/
theorem oemChar_spec {byte : UInt8} (short : ShortByte byte) :
    (oemChar byte).toNat < 128 ∧ (oemChar byte).toUpper = oemChar byte ∧
      charByte (oemChar byte) = byte :=
  byte_cases (fun byte => ShortByte byte → (oemChar byte).toNat < 128 ∧
    (oemChar byte).toUpper = oemChar byte ∧ charByte (oemChar byte) = byte) (by decide) byte short

section Aliases

variable [CaseMapping] {short base extension : List UInt8}

/-- The two names are equal up to case. -/
theorem same_iff : same first second = true ↔
    first.flatMap CaseMapping.upper = second.flatMap CaseMapping.upper := beq_iff_eq

theorem flatMap_upper_of_forall (all : ∀ c ∈ name, c.toNat < 128 ∧ c.toUpper = c) :
    name.flatMap CaseMapping.upper = name := by
  induction name with
  | nil => rfl
  | cons c rest ih =>
    obtain ⟨ascii, upper⟩ := all c mem_cons_self
    rw [flatMap_cons, CaseMapping.upper_ascii c ascii, upper, ih (forall_mem_cons.mp all).2]
    rfl

/-- An alias is in upper case. -/
theorem Padded.upper_aliasName (padded : Padded short base extension) :
    (Fat.aliasName short 0).flatMap CaseMapping.upper = Fat.aliasName short 0 := by
  have part : ∀ {bytes : List UInt8}, (∀ byte ∈ bytes, ShortByte byte) →
      ∀ c ∈ bytes.map oemChar, c.toNat < 128 ∧ c.toUpper = c := by
    intro _ all c member
    obtain ⟨byte, inside, rfl⟩ := mem_map.mp member
    exact ⟨(oemChar_spec (all byte inside)).1, (oemChar_spec (all byte inside)).2.1⟩
  refine flatMap_upper_of_forall fun c member => ?_
  rw [padded.aliasName, mem_append] at member
  rcases member with inBase | behind
  · exact part padded.base_bytes c inBase
  · split at behind
    · cases behind
    · rcases mem_cons.mp behind with rfl | inExtension
      · decide
      · exact part padded.extension_bytes c inExtension

omit [CaseMapping] in
theorem map_charByte_oemChar (all : ∀ byte ∈ bytes, ShortByte byte) :
    (bytes.map oemChar).map charByte = bytes := by
  rw [map_map]
  exact (map_congr_left fun byte member => (oemChar_spec (all byte member)).2.2).trans
    (map_id _)

/-- A chosen short name can be read off its alias. -/
theorem Padded.parts_of_aliasName (padded : Padded short base extension) :
    ((Fat.aliasName short 0).takeWhile (· != '.')).map charByte = base ∧
      ((Fat.aliasName short 0).dropWhile (· != '.')).tail.map charByte = extension := by
  have noDot : ∀ c ∈ base.map oemChar, (c != '.') = true := by
    intro c member
    obtain ⟨byte, inside, rfl⟩ := mem_map.mp member
    exact bne_iff_ne.mpr (oemChar_ne_dot (padded.base_bytes byte inside))
  rw [padded.aliasName, takeWhile_append_of_pos noDot, dropWhile_append_of_pos noDot]
  split
  · rename_i none
    rw [none, takeWhile_nil, append_nil]
    exact ⟨map_charByte_oemChar padded.base_bytes, rfl⟩
  · rw [takeWhile_cons_of_neg (by decide), dropWhile_cons_of_neg (by decide), append_nil]
    exact ⟨map_charByte_oemChar padded.base_bytes, map_charByte_oemChar padded.extension_bytes⟩

/-- Short names whose aliases are equal up to case are equal. -/
theorem Padded.eq_of_same {other otherBase otherExtension : List UInt8}
    (padded : Padded short base extension) (otherPadded : Padded other otherBase otherExtension)
    (alike : same (Fat.aliasName short 0) (Fat.aliasName other 0) = true) : short = other := by
  rw [same_iff, padded.upper_aliasName, otherPadded.upper_aliasName] at alike
  obtain ⟨sameBase, sameExtension⟩ := padded.parts_of_aliasName
  obtain ⟨otherSameBase, otherSameExtension⟩ := otherPadded.parts_of_aliasName
  rw [alike] at sameBase sameExtension
  rw [padded.eq, otherPadded.eq, ← sameBase, ← sameExtension, otherSameBase, otherSameExtension]

end Aliases

/-! ### Names that are apart -/

section Names

variable [CaseMapping]

/-- A record is found by a name. -/
def Record.Answers (record : Record) (name : List Char) : Prop :=
  same record.name name = true ∨ same record.aliasName name = true

/-- No name finds two records, and no two records have the same short name. -/
structure NamesApart (listed : Record → Prop) : Prop where
  names : ∀ name first second, listed first → listed second → first.Answers name →
    second.Answers name → first = second
  shorts : ∀ first second, listed first → listed second → first.short = second.short →
    first = second

/-- A record has a short name of the driver's choice, without case bits. -/
def Record.Made (record : Record) : Prop :=
  (∃ base extension, Padded record.short base extension) ∧
    record.aliasName = Fat.aliasName record.short 0

theorem same_of_both (left : same first name = true) (right : same second name = true) :
    same first second = true := by
  rw [same_iff] at *
  exact left.trans right.symm

theorem same_refl (name : List Char) : same name name = true := same_iff.mpr rfl

/-- Names stay apart with a new record if neither its name nor its alias is among the names and its
name is not among the aliases. -/
theorem NamesApart.add_iff {old : Record → Prop} {new : Record} (apart : NamesApart old)
    (made : ∀ record, old record → record.Made) (newMade : new.Made)
    (fresh : ∀ record, old record → record.short ≠ new.short) :
    NamesApart (fun record => old record ∨ record = new) ↔
      ∀ record, old record → same record.name new.name = false ∧
        same record.aliasName new.name = false ∧ same record.name new.aliasName = false := by
  constructor
  · intro both record listed
    have alone : ∀ name, new.Answers name → ¬record.Answers name := fun name found otherFound =>
      fresh record listed (congrArg Record.short
        (both.names name record new (Or.inl listed) (Or.inr rfl) otherFound found))
    have byName := alone new.name (Or.inl (same_refl _))
    have byAlias := alone new.aliasName (Or.inr (same_refl _))
    exact ⟨Bool.eq_false_iff.mpr fun alike => byName (Or.inl alike),
      Bool.eq_false_iff.mpr fun alike => byName (Or.inr alike),
      Bool.eq_false_iff.mpr fun alike => byAlias (Or.inl alike)⟩
  · intro clear
    have crossed : ∀ record name, old record → record.Answers name → ¬new.Answers name := by
      intro record name listed found newFound
      obtain ⟨names, aliasAndName, nameAndAlias⟩ := clear record listed
      rcases found with left | left <;> rcases newFound with right | right
      · exact absurd (same_of_both left right) (Bool.eq_false_iff.mp names)
      · exact absurd (same_of_both left right) (Bool.eq_false_iff.mp nameAndAlias)
      · exact absurd (same_of_both left right) (Bool.eq_false_iff.mp aliasAndName)
      · obtain ⟨⟨_, _, padded⟩, text⟩ := made record listed
        obtain ⟨⟨_, _, newPadded⟩, newText⟩ := newMade
        have alike := same_of_both left right
        rw [text, newText] at alike
        exact fresh record listed (padded.eq_of_same newPadded alike)
    refine ⟨?_, ?_⟩
    · rintro name first second (firstOld | rfl) (secondOld | rfl) found otherFound
      · exact apart.names name first second firstOld secondOld found otherFound
      · exact absurd otherFound (crossed first name firstOld found)
      · exact absurd found (crossed second name secondOld otherFound)
      · rfl
    · rintro first second (firstOld | rfl) (secondOld | rfl) shorts
      · exact apart.shorts first second firstOld secondOld shorts
      · exact absurd shorts (fresh first firstOld)
      · exact absurd shorts.symm (fresh second secondOld)
      · rfl

/-- The alias of a new record is the name of another one, or entries in front of it give it a name
that another one answers to. -/
def Clashes (bytes : List UInt8) (kind : Kind) (name : List Char) : Prop :=
  ∃ record ∈ records bytes kind,
    (∃ short, shortName name ((records bytes kind).map Record.short) = .ok short ∧
      same record.name (aliasName short 0) = true) ∨
    ∃ given, Inherits bytes kind name given ∧ record.Answers given

section Inserting

variable {layout : Layout} {before middle after : View} {dir : Dir}
  {name : List Char} {cluster size count place : Nat} {attr : UInt8} {chain other : List Nat}
  {bytes short : List UInt8}
  (inserted : Inserted layout dir name cluster size attr before middle after chain other
    bytes short count place)

include inserted

theorem Inserted.made (small : cluster < clusterLimit layout.kind) (fits : size < 4294967296) :
    inserted.record.Made := by
  obtain ⟨_, _, _, sameShort, sameAlias⟩ := inserted.record_fields small fits
  rw [Record.Made, sameShort, sameAlias]
  exact ⟨(shortName_spec inserted.chosen).2, rfl⟩

theorem Inserted.short_ne (small : cluster < clusterLimit layout.kind) (fits : size < 4294967296)
    (member : record ∈ records bytes layout.kind) : record.short ≠ inserted.record.short := by
  rw [(inserted.record_fields small fits).2.2.2.1]
  intro same
  exact (shortName_spec inserted.chosen).1 (same ▸ mem_map_of_mem member)

/-- When the names of a new record are apart from those that are there. -/
theorem Inserted.clear_iff (shaped : before.Shaped layout)
    (small : cluster < clusterLimit layout.kind) (fits : size < 4294967296)
    (made : ∀ record ∈ records bytes layout.kind, record.Made) :
    (∀ record ∈ records bytes layout.kind, same record.name inserted.record.name = false ∧
        same record.aliasName inserted.record.name = false ∧
        same record.name inserted.record.aliasName = false) ↔ ¬Clashes bytes layout.kind name := by
  obtain ⟨_, _, _, sameShort, sameAlias⟩ := inserted.record_fields small fits
  have named := inserted.record_name shaped small fits
  rw [sameAlias]
  constructor
  · rintro clear ⟨record, member, ⟨_, chosen, alike⟩ | ⟨given, inherits, answers⟩⟩
    · have shorts := inserted.chosen.symm.trans chosen
      cases shorts
      rw [(clear record member).2.2] at alike
      cases alike
    · obtain ⟨direct, text⟩ := inserted.inherits_iff.mp inherits
      rw [if_pos direct, text, Option.getD_some] at named
      obtain ⟨first, second, _⟩ := clear record member
      rw [named] at first second
      rcases answers with found | found
      · rw [first] at found
        cases found
      · rw [second] at found
        cases found
  · intro clear record member
    have byAlias : same record.name (aliasName short 0) = false :=
      Bool.eq_false_iff.mpr fun alike =>
        clear ⟨record, member, Or.inl ⟨short, inserted.chosen, alike⟩⟩
    have unlike := find?_eq_none.mp inserted.absent record member
    rw [Bool.not_eq_true, Bool.or_eq_false_iff] at unlike
    obtain ⟨byName, byOther⟩ := unlike
    rw [named]
    split
    · rename_i direct
      cases text : inherited bytes place short with
      | none => exact ⟨byName, byOther, byAlias⟩
      | some given =>
        have inherits := inserted.inherits_iff.mpr ⟨direct, text⟩
        exact ⟨Bool.eq_false_iff.mpr fun alike =>
            clear ⟨record, member, Or.inr ⟨given, inherits, Or.inl alike⟩⟩,
          Bool.eq_false_iff.mpr fun alike =>
            clear ⟨record, member, Or.inr ⟨given, inherits, Or.inr alike⟩⟩, byAlias⟩
    · split
      · refine ⟨byAlias, Bool.eq_false_iff.mpr fun alike => ?_, byAlias⟩
        obtain ⟨⟨_, _, padded⟩, text⟩ := made record member
        obtain ⟨_, _, newPadded⟩ := (shortName_spec inserted.chosen).2
        rw [text] at alike
        exact inserted.short_ne small fits member
          ((padded.eq_of_same newPadded alike).trans sameShort.symm)
      · exact ⟨byName, byOther, byAlias⟩

end Inserting

theorem NamesApart.mono {fewer : Record → Prop} (apart : NamesApart listed)
    (inside : ∀ record, fewer record → listed record) : NamesApart fewer :=
  ⟨fun name first second firstIn secondIn =>
      apart.names name first second (inside first firstIn) (inside second secondIn),
    fun first second firstIn secondIn =>
      apart.shorts first second (inside first firstIn) (inside second secondIn)⟩

theorem NamesApart.of_none (none : ∀ record, ¬listed record) : NamesApart listed :=
  ⟨fun _ first _ inside => absurd inside (none first),
    fun first _ inside => absurd inside (none first)⟩

end Names

/-! ### Directories whose names are apart -/

section Directories

variable [CaseMapping] {layout : Layout} {before written middle after : View} {parent dir : Dir}
  {name : List Char} {cluster size : Nat} {attr : UInt8}

/-- The records of a directory that can be reached are of the driver's making. -/
def Layout.DirMade (layout : Layout) (view : View) (dir : Dir) : Prop :=
  layout.Live view dir → ∀ record, layout.RecordIn view dir record → record.Made

/-- The names of a directory that can be reached are apart. -/
def Layout.DirApart (layout : Layout) (view : View) (dir : Dir) : Prop :=
  layout.Live view dir → NamesApart (layout.RecordIn view dir)

/-- A new record of a directory clashes with those that are there. -/
def Layout.ClashesIn (layout : Layout) (view : View) (dir : Dir) (name : List Char) : Prop :=
  ∃ chain bytes, layout.DirData view dir chain bytes ∧ Clashes bytes layout.kind name

/-- A directory that can be reached has no new records, or none if it could not be reached. -/
def Layout.Fewer (layout : Layout) (before after : View) (dir : Dir) : Prop :=
  layout.Live after dir → (layout.Live before dir ∧ ∀ record,
    layout.RecordIn after dir record → layout.RecordIn before dir record) ∨
    ∀ record, ¬layout.RecordIn after dir record

theorem Layout.DirMade.of_fewer (made : layout.DirMade before dir)
    (fewer : layout.Fewer before after dir) : layout.DirMade after dir := by
  intro live record found
  rcases fewer live with ⟨liveBefore, inside⟩ | none
  · exact made liveBefore record (inside record found)
  · exact absurd found (none record)

theorem Layout.DirApart.of_fewer (apart : layout.DirApart before dir)
    (fewer : layout.Fewer before after dir) : layout.DirApart after dir := by
  intro live
  rcases fewer live with ⟨liveBefore, inside⟩ | none
  · exact (apart liveBefore).mono inside
  · exact .of_none none

section Inserting

variable {count place : Nat} {chain other : List Nat} {bytes short : List UInt8}
  (inserted : Inserted layout parent name cluster size attr before middle after chain other
    bytes short count place)
  (sound : layout.Sound before cluster) (live : layout.Live before parent)
  (shaped : before.Shaped layout) (plain : Plain attr)

include inserted shaped plain

theorem Inserted.recordIn_parent : layout.RecordIn after parent record ↔
    layout.RecordIn before parent record ∨ record = inserted.record := by
  rw [inserted.rewritten.dirData.recordIn, inserted.loaded.recordIn]
  exact inserted.mem_records plain shaped

include sound live

omit plain in
theorem Inserted.recordIn_other (otherLive : layout.Live before dir) (different : dir ≠ parent) :
    layout.RecordIn after dir record ↔ layout.RecordIn before dir record := by
  have same := (inserted.harmless sound live shaped).1.same
  rw [(inserted.rewrites sound live shaped).recordIn_iff (same.live_of otherLive) different,
    same.recordIn_iff sound otherLive]

theorem Inserted.live_mono (otherLive : layout.Live before dir) : layout.Live after dir := by
  induction otherLive with
  | root => exact .root
  | @child above record aboveLive found isDir ih =>
    refine .child ih ?_ isDir
    by_cases here : above = parent
    · subst here
      exact (inserted.recordIn_parent shaped plain).mpr (Or.inl found)
    · exact (inserted.recordIn_other sound live shaped aboveLive here).mpr found

/-- A directory that can be reached could be reached before, or it is new and has no records. -/
theorem Inserted.live_of (small : cluster < layout.kind.modulus)
    (empty : attr &&& 0x10 ≠ 0 → ∀ record, ¬layout.RecordIn before ⟨cluster, false⟩ record)
    (otherLive : layout.Live after dir) :
    layout.Live before dir ∨ ∀ record, ¬layout.RecordIn after dir record := by
  have rewrites := inserted.rewrites sound live shaped
  have same := (inserted.harmless sound live shaped).1.same
  have none : attr &&& 0x10 ≠ 0 → ∀ record, ¬layout.RecordIn after ⟨cluster, false⟩ record :=
    fun isDir => rewrites.not_recordIn_pending
      (inserted.not_recordIn_middle sound live shaped (empty isDir))
  have inside : ∀ record, layout.RecordIn after parent record → record.isDir = true →
      layout.RecordIn middle parent record ∨
        attr &&& 0x10 ≠ 0 ∧ (⟨record.cluster, false⟩ : Dir) = ⟨cluster, false⟩ := by
    intro record found isDir
    rcases (inserted.recordIn_parent shaped plain).mp found with old | rfl
    · exact Or.inl ((same.recordIn_iff sound live).mpr old)
    · rw [Record.isDir, inserted.record_attr, bne_iff_ne] at isDir
      rw [inserted.record_cluster small]
      exact Or.inr ⟨isDir, rfl⟩
  rcases rewrites.live_of (fun other => attr &&& 0x10 ≠ 0 ∧ other = ⟨cluster, false⟩) inside
    (fun other record new => new.2 ▸ none new.1 record) otherLive with old | ⟨isDir, new⟩
  · exact Or.inl ((same.live_iff sound).mp old)
  · rw [new]
    exact Or.inr (none isDir)

end Inserting

/-- The names of a directory after a record was entered somewhere. -/
theorem Published.dirApart (published : Published layout parent name cluster size attr before after)
    (sound : layout.Sound before cluster) (live : layout.Live before parent)
    (shaped : before.Shaped layout) (plain : Plain attr) (small : cluster < layout.kind.modulus)
    (fits : size < 4294967296)
    (empty : attr &&& 0x10 ≠ 0 → ∀ record, ¬layout.RecordIn before ⟨cluster, false⟩ record)
    (made : layout.DirMade before dir) (apart : layout.DirApart before dir) :
    layout.DirMade after dir ∧
      (layout.DirApart after dir ↔ ¬(dir = parent ∧ layout.ClashesIn before dir name)) := by
  obtain ⟨_, chain, _, bytes, _, _, _, inserted⟩ := published
  have limit := Nat.lt_of_lt_of_le small (modulus_le_clusterLimit layout.kind)
  by_cases here : dir = parent
  · subst here
    have listed : layout.RecordIn after dir =
        fun record => layout.RecordIn before dir record ∨ record = inserted.record := by
      funext record
      exact propext (inserted.recordIn_parent shaped plain)
    have oldMade := made live
    have addIff := (apart live).add_iff oldMade (inserted.made limit fits)
      fun record found => inserted.short_ne limit fits (inserted.loaded.recordIn.mp found)
    have clearIff := inserted.clear_iff shaped limit fits
      fun record member => oldMade record (inserted.loaded.recordIn.mpr member)
    have clashIff : layout.ClashesIn before dir name ↔ Clashes bytes layout.kind name := by
      constructor
      · rintro ⟨_, _, data, clashes⟩
        obtain ⟨_, rfl⟩ := data.unique inserted.loaded
        exact clashes
      · exact fun clashes => ⟨chain, bytes, inserted.loaded, clashes⟩
    have reached := inserted.live_mono sound live shaped plain live
    refine ⟨fun _ record found => ?_, ?_⟩
    · rw [listed] at found
      rcases found with old | rfl
      · exact oldMade record old
      · exact inserted.made limit fits
    · rw [clashIff, and_iff_right rfl, ← clearIff, Layout.DirApart, forall_prop_of_true reached,
        listed, addIff]
      exact forall_congr' fun record => by rw [inserted.loaded.recordIn]
  · have fewer : layout.Fewer before after dir := fun otherLive =>
      (inserted.live_of sound live shaped plain small empty otherLive).imp_left fun liveBefore =>
        ⟨liveBefore, fun _ => (inserted.recordIn_other sound live shaped liveBefore here).mp⟩
    exact ⟨made.of_fewer fewer, fun _ clash => here clash.1, fun _ => apart.of_fewer fewer⟩

/-- Taking free clusters changes no directory. -/
theorem Taken.dirData_iff {chain : List Nat} (taking : Taken layout before written clusters)
    (sound : layout.Sound before 0) (live : layout.Live before dir) :
    layout.DirData written dir chain bytes ↔ layout.DirData before dir chain bytes := by
  have keeps : ∀ {chain : List Nat} {bytes : List UInt8}, layout.DirData before dir chain bytes →
      layout.DirData written dir chain bytes := fun data =>
    data.of_agrees taking.agrees fun cluster member inside =>
      (data.chainOf (data.chained_of_mem member)).2.1.entry_ne_zero member
        (taking.free cluster inside)
  refine ⟨fun data => ?_, keeps⟩
  rcases sound.dirData live with ⟨_, _, oldData⟩ | ⟨chained, none⟩
  · obtain ⟨rfl, rfl⟩ := data.unique (keeps oldData)
    exact oldData
  · exact absurd none (data.cluster_ne_zero chained)

/-- The names of a directory after free clusters were taken and a record was entered somewhere. -/
theorem Taken.dirApart (taken : Taken layout before written clusters)
    (sound : layout.Sound before 0) (live : layout.Live before parent)
    (shaped : written.Shaped layout) (plain : Plain attr) (fits : size < 4294967296)
    (small : clusters.head?.getD 0 < layout.kind.modulus) (empty : attr &&& 0x10 ≠ 0 →
      ∀ record, ¬layout.RecordIn written ⟨clusters.head?.getD 0, false⟩ record)
    (published : Published layout parent name (clusters.head?.getD 0) size attr written after)
    (made : layout.DirMade before dir) (apart : layout.DirApart before dir) :
    layout.DirMade after dir ∧
      (layout.DirApart after dir ↔ ¬(dir = parent ∧ layout.ClashesIn before dir name)) := by
  have harmless := taken.harmless sound
  have fewer : layout.Fewer before written dir := fun otherLive =>
    have liveBefore := (harmless.same.live_iff sound).mp otherLive
    Or.inl ⟨liveBefore, fun _ => (harmless.same.recordIn_iff sound liveBefore).mp⟩
  have clashIff : dir = parent ∧ layout.ClashesIn written dir name ↔
      dir = parent ∧ layout.ClashesIn before dir name := by
    refine and_congr_right fun here => exists₂_congr fun chain bytes => ?_
    rw [here, taken.dirData_iff sound live]
  have result := published.dirApart harmless.sound (harmless.same.live_of live) shaped plain small
    fits empty (made.of_fewer fewer) (apart.of_fewer fewer)
  rw [clashIff] at result
  exact result

/-- A directory has no new records after one was removed somewhere. -/
theorem Removed.fewer (removed : Removed layout parent record before after)
    (sound : layout.Sound before 0) (live : layout.Live before parent) (dir : Dir) :
    layout.Fewer before after dir := by
  intro otherLive
  obtain ⟨middle, dirChain, bytes, _, data, _, member, _, rewritten, linked, released⟩ := removed
  have rewrites : Rewrites layout parent dirChain bytes (erase bytes record) before 0 middle :=
    ⟨sound, live, data, rewritten⟩
  obtain ⟨_, _, slot⟩ := mem_records.mp member
  have soundMiddle := rewrites.sound_remove (fun other => (mem_records_erase slot).mp) member
  have same := (released.harmless soundMiddle linked).same
  have inside : ∀ other, layout.RecordIn middle parent other →
      layout.RecordIn before parent other := by
    intro other found
    rw [rewritten.dirData.recordIn, mem_records_erase slot] at found
    exact data.recordIn.mpr found.1
  have liveMiddle := (same.live_iff soundMiddle).mp otherLive
  have liveBefore : layout.Live before dir := by
    refine (rewrites.live_of (fun _ => False) (fun other found _ => Or.inl (inside other found))
      (fun _ _ impossible => impossible.elim) liveMiddle).resolve_right id
  refine Or.inl ⟨liveBefore, fun other found => ?_⟩
  have foundMiddle := (same.recordIn_iff soundMiddle liveMiddle).mp found
  by_cases here : dir = parent
  · rw [here] at foundMiddle ⊢
    exact inside other foundMiddle
  · exact (rewrites.recordIn_iff liveBefore here).mp foundMiddle

end Directories

/-! ### Sequences of operations -/

section Sequences

variable [CaseMapping]

/-- The operations that add and remove names. -/
def Operation.Naming : Operation → Prop
  | .createFile _ _ | .mkdir _ | .delete _ => True
  | .writeFile _ _ | .appendFile _ _ => False

/-- An operation enters a record into a directory that clashes with those that are there. -/
def Operation.ClashesIn (operation : Operation) (store : Store) (dir : Dir) : Prop :=
  match operation with
  | .createFile path _ | .mkdir path =>
      ∃ name, store.parent path = .ok (dir, name) ∧
        store.volume.ClashesIn store.view dir name
  | .writeFile _ _ | .appendFile _ _ | .delete _ => False

/-- Something holds of all stores that a sequence of operations passes through. -/
def Throughout (holds : Store → Prop) : List Operation → Store → Prop
  | [], store => holds store
  | operation :: rest, store => holds store ∧ Throughout holds rest (operation.run store).2

/-- Something holds of all operations of a sequence and the stores they start in. -/
def Always (holds : Store → Operation → Prop) : List Operation → Store → Prop
  | [], _ => True
  | operation :: rest, store => holds store operation ∧ Always holds rest (operation.run store).2

variable {start limit : Nat} {store : Store}

/-- What an operation that succeeds does to the names of a directory. -/
theorem Consistent.dirApart_run (consistent : Consistent start limit store) {operation : Operation}
    (naming : operation.Naming) (done : (operation.run store).1 = .ok ()) {dir : Dir}
    (made : store.volume.DirMade store.view dir) (apart : store.volume.DirApart store.view dir) :
    (operation.run store).2.volume.DirMade (operation.run store).2.view dir ∧
      ((operation.run store).2.volume.DirApart (operation.run store).2.view dir ↔
        ¬operation.ClashesIn store dir) := by
  have ⟨mounted, reliable, sound⟩ := consistent
  have finish : ∀ {after : Store} {parent : Dir} {name path : List Char}, Kept start store after →
      store.parent path = .ok (parent, name) → store.volume.DirMade after.view dir ∧
        (store.volume.DirApart after.view dir ↔
          ¬(dir = parent ∧ store.volume.ClashesIn store.view dir name)) →
      after.volume.DirMade after.view dir ∧ (after.volume.DirApart after.view dir ↔
        ¬∃ name, store.parent path = .ok (dir, name) ∧
          store.volume.ClashesIn store.view dir name) := by
    intro _ parent name path kept found result
    rw [kept.layout]
    refine ⟨result.1, result.2.trans (not_congr ⟨?_, ?_⟩)⟩
    · rintro ⟨rfl, clashes⟩
      exact ⟨name, found, clashes⟩
    · rintro ⟨_, otherFound, clashes⟩
      rw [found] at otherFound
      cases otherFound
      exact ⟨rfl, clashes⟩
  cases operation with
  | writeFile path data => cases naming
  | appendFile path data => cases naming
  | createFile path data =>
    obtain ⟨⟨_, kept⟩, parent, _, found, length, written, _, shaped, taken, _, _,
      published⟩ := (create_meets mounted reliable path data).ok (Program.run_of_fst done)
    refine finish kept found (taken.dirApart sound (mounted.live_of_parent found) shaped
      ⟨by decide, by decide⟩ ?_ (mounted.placed.first_lt_modulus taken.linked)
      (fun isDir => absurd isDir (by decide)) published made apart)
    exact Nat.lt_of_le_of_lt length (by decide)
  | mkdir path =>
    obtain ⟨⟨_, kept⟩, _, _, found, written, new, shaped, taken, contents,
      published⟩ := (mkdir_meets mounted reliable path).ok (Program.run_of_fst done)
    exact finish kept found (taken.dirApart sound (mounted.live_of_parent found) shaped
      ⟨by decide, by decide⟩ (by decide) (mounted.placed.first_lt_modulus taken.linked)
      (fun _ => not_recordIn_newDirectory mounted.placed.spc_pos taken.linked contents) published
      made apart)
  | delete path =>
    obtain ⟨⟨_, kept⟩, _, _, resolves, removed⟩ :=
      (delete_meets mounted reliable path).ok (Program.run_of_fst done)
    obtain ⟨live, _⟩ := resolve_spec mounted.live_step .root resolves
    show Layout.DirMade (delete path store).2.volume.toLayout _ dir ∧
      (Layout.DirApart (delete path store).2.volume.toLayout _ dir ↔ _)
    rw [kept.layout]
    have fewer := removed.fewer sound live dir
    exact ⟨made.of_fewer fewer, fun _ => id, fun _ => apart.of_fewer fewer⟩

theorem Throughout.head (all : Throughout holds operations store) : holds store := by
  cases operations with
  | nil => exact all
  | cons => exact all.1

theorem Throughout.last (all : Throughout holds operations store) :
    holds (runAll operations store) := by
  induction operations generalizing store with
  | nil => exact all
  | cons operation rest ih => exact ih all.2

/-- The names of a directory are apart throughout a sequence of operations as long as none of the
new records clashes. -/
theorem Consistent.throughout_iff (consistent : Consistent start limit store) {dir : Dir}
    (naming : ∀ operation ∈ operations, operation.Naming)
    (successful : Always (fun store operation => (operation.run store).1 = .ok ()) operations store)
    (made : store.volume.DirMade store.view dir) (apart : store.volume.DirApart store.view dir) :
    Throughout (fun store => store.volume.DirApart store.view dir) operations store ↔
      Always (fun store operation => ¬operation.ClashesIn store dir) operations store := by
  induction operations generalizing store with
  | nil => exact ⟨fun _ => trivial, fun _ => apart⟩
  | cons operation rest ih =>
    obtain ⟨done, later⟩ := successful
    obtain ⟨madeAfter, apartIff⟩ := consistent.dirApart_run (naming operation mem_cons_self)
      done made apart
    have continues := fun apartAfter => ih (consistent.run_meets operation).final.1
      (forall_mem_cons.mp naming).2 later madeAfter apartAfter
    constructor
    · rintro ⟨_, rest⟩
      exact ⟨apartIff.mp rest.head, (continues rest.head).mp rest⟩
    · rintro ⟨clear, rest⟩
      have apartAfter := apartIff.mpr clear
      exact ⟨apart, (continues apartAfter).mpr rest⟩

/-- In a directory that has no records at first, every name finds at most one record and all short
names are different, however names are added and removed, as long as no new record clashes. -/
theorem unambiguous_iff (consistent : Consistent start limit store) {dir : Dir}
    (empty : ∀ record, ¬store.volume.RecordIn store.view dir record)
    {operations : List Operation} (naming : ∀ operation ∈ operations, operation.Naming)
    (successful : Always (fun store operation => (operation.run store).1 = .ok ()) operations
      store) :
    Throughout (fun store => store.volume.DirApart store.view dir) operations store ↔
      Always (fun store operation => ¬operation.ClashesIn store dir) operations store :=
  consistent.throughout_iff naming successful (fun _ record found => absurd found (empty record))
    fun _ => .of_none empty

end Sequences

/-- The empty small volume. -/
def smallStore : Store := ⟨smallDisk, (smallLayout 1 16).mount smallDisk⟩

/-- A file is created and deleted, and a directory of the same name is made. -/
def threeOperations : List Operation :=
  [.createFile ['a', ' ', 'b'] [], .delete ['a', ' ', 'b'], .mkdir ['a', ' ', 'b']]

/-- The names of the root directory stay apart. -/
theorem unambiguous_threeOperations :
    @Throughout asciiMapping
      (fun store => @Layout.DirApart asciiMapping store.volume.toLayout store.view
        (smallLayout 1 16).root) threeOperations smallStore := by
  have sound : @Layout.Sound asciiMapping (smallLayout 1 16) smallStore.view 0 :=
    @Layout.Formatted.sound asciiMapping _ _ formatted_smallDisk
  have mounted : Mounted 0 19 smallStore :=
    (layoutOf_placed layoutOf_smallBoot).mounted_mount (Nat.le_refl 19) rfl
  have unlisted : ∀ {store : Store} {name : List Char},
      store.volume.toLayout = smallLayout 1 16 →
      @records asciiMapping store.view.root .fat12 = [] →
      ¬@Layout.ClashesIn asciiMapping store.volume.toLayout store.view (smallLayout 1 16).root
        name := by
    rintro _ name layout none ⟨_, _, data, record, member, _⟩
    rw [layout] at data member
    rw [(data.fixed (by decide)).2] at member
    exact absurd (none ▸ member) List.not_mem_nil
  have consistent : @Consistent asciiMapping 0 19 smallStore :=
    @Consistent.mk asciiMapping 0 19 smallStore mounted (fun _ => rfl) sound
  refine (@unambiguous_iff asciiMapping 0 19 smallStore consistent _
    (fun record => @Layout.Formatted.no_record asciiMapping _ _ formatted_smallDisk record)
    threeOperations ?_ ⟨?_, ?_, ?_, trivial⟩).mpr ⟨?_, nofun, ?_, trivial⟩
  · intro _ member
    simp only [threeOperations, List.mem_cons, List.not_mem_nil, or_false] at member
    rcases member with rfl | rfl | rfl <;> trivial
  · decide +kernel
  · decide +kernel
  · decide +kernel
  · rintro ⟨_, _, clashes⟩
    exact unlisted rfl (by decide +kernel) clashes
  · rintro ⟨_, _, clashes⟩
    exact unlisted (by decide +kernel) (by decide +kernel) clashes

/-- The case mappings of ASCII and of the dotless i, whose upper case is `I`. -/
@[reducible] def dotlessMapping : CaseMapping where
  upper c := if c = Char.ofNat 0x131 then ['I'] else [c.toUpper]
  lower c := [c.toLower]
  upper_ascii c ascii := if_neg fun same => by
    rw [same] at ascii
    exact absurd ascii (by decide)
  lower_ascii := asciiMapping.lower_ascii

/-- A file whose name is `II~1` up to case, and one whose alias is `II~1`. -/
def twoFiles : List Operation :=
  [.createFile [Char.ofNat 0x131, Char.ofNat 0x131, '~', '1'] [], .createFile ['i', ' ', 'i'] []]

/-- The small volume with both files. -/
def twoFilesStore : Store := @runAll dotlessMapping twoFiles smallStore

/-- Both files are created in an empty directory, and both answer to `II~1`. -/
theorem not_unambiguous_twoFiles :
    probe smallStore.disk 0 19 = .ok smallStore.volume ∧
    (smallLayout 1 16).Formatted smallStore.view ∧
    @Always dotlessMapping (fun store operation => (@Operation.run dotlessMapping operation
      store).1 = .ok ()) twoFiles smallStore ∧
    ¬@Throughout dotlessMapping
      (fun store => @Layout.DirApart dotlessMapping store.volume.toLayout store.view
        (smallLayout 1 16).root) twoFiles smallStore := by
  refine ⟨probe_smallDisk, formatted_smallDisk, ⟨?_, ?_, trivial⟩, ?_⟩
  · decide +kernel
  · decide +kernel
  · intro all
    have apart := @Throughout.last _ _ dotlessMapping _ all
    rw [← twoFilesStore] at apart
    obtain ⟨layout, answers⟩ : twoFilesStore.volume.toLayout = smallLayout 1 16 ∧
        (@records dotlessMapping twoFilesStore.view.root .fat12).map (fun record =>
          (record.offset, @same dotlessMapping record.name ['I', 'I', '~', '1'] ||
            @same dotlessMapping record.aliasName ['I', 'I', '~', '1'])) =
          [(32, true), (96, true)] := by
      decide +kernel
    rw [layout] at apart
    have two : (@records dotlessMapping twoFilesStore.view.root .fat12).length = 2 := by
      rw [← List.length_map, answers, List.length_cons, List.length_singleton]
    obtain ⟨first, second, listed⟩ := List.length_eq_two.mp two
    rw [listed] at answers
    simp only [List.map_cons, List.map_nil, List.cons.injEq, Prod.mk.injEq, Bool.or_eq_true,
      and_true] at answers
    obtain ⟨⟨firstOffset, firstAnswers⟩, secondOffset, secondAnswers⟩ := answers
    have fixed : (smallLayout 1 16).fixedRoot (smallLayout 1 16).root = true := by decide
    have found : ∀ record ∈ [first, second], @Layout.RecordIn dotlessMapping (smallLayout 1 16)
        twoFilesStore.view (smallLayout 1 16).root record := fun record member =>
      ⟨[], twoFilesStore.view.root, .of_fixed fixed, by rw [← listed] at member; exact member⟩
    have equal := @NamesApart.names dotlessMapping _
      (apart (@Layout.Live.root dotlessMapping _ _)) ['I', 'I', '~', '1'] first second
      (found first (by simp)) (found second (by simp)) firstAnswers secondAnswers
    rw [equal, secondOffset] at firstOffset
    omega

end Mmurtl.Fat

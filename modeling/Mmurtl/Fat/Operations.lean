/-
This file proves what the driver's operations do to a volume on a device that does not fail,
whatever its chains are like: what changes where they return, and what is undone where they
fail.

On a sound volume the changes leave it sound. An operation that fails is undone but for two
cases: replacing a file whose old chain cannot be released, and a directory that grew before
it turned out that it cannot grow enough.
-/

import Mmurtl.Fat.Edits
import Mmurtl.Fat.Paths

namespace Mmurtl.Fat

open Bytes List

variable {layout : Layout} {pending first size position : Nat} {chain : List Nat}
  {entry bytes : List UInt8} {dir : Dir} {record : Record} {path name : List Char}

/-! ### Entering a chain into a directory -/

section Publish

variable [CaseMapping] {start limit : Nat} {store : Store} {dirChain : List Nat}

/-- A volume works as before, on the same device. -/
structure Works (start limit : Nat) (before after : Store) : Prop where
  mounted : Mounted start limit after
  kept : Kept start before after

omit [CaseMapping] in
theorem Works.refl (mounted : Mounted start limit store) : Works start limit store store :=
  ⟨mounted, Kept.refl ..⟩

omit [CaseMapping] in
theorem Works.trans {middle after : Store} (left : Works start limit store middle)
    (right : Works start limit middle after) : Works start limit store after :=
  ⟨right.mounted, left.kept.trans right.kept⟩

/-- An insertion fails, but has put a cluster behind the last one of its directory before. -/
def Strands (dir : Dir) (name : List Char) (first size : Nat) (attr : UInt8) (store : Store)
    (last new : Nat) : Prop :=
  (∃ reason left, insert dir name first size attr store = (.error reason, left) ∧ left ≠ store) ∧
    (∃ chain bytes, store.loadDir dir = .ok (chain, bytes) ∧ chain.getLast? = some last) ∧
    ∃ reserved, allocate 1 store = (.ok [new], reserved)

/-- A directory stays longer by a cluster, and a chain that was taken is released. -/
def Outgrown (store : Store) (last new : Nat) (after : Store) : Prop :=
  ∃ dir dirChain bytes written left chain, store.volume.Live store.view dir ∧
    store.volume.DirData store.view dir dirChain bytes ∧
    dirChain.length + 1 ≤ maxMetadata / store.volume.bytes ∧ dirChain.getLast? = some last ∧
    Taken store.volume.toLayout store.view written chain ∧
    GrowStep store.volume.toLayout dir dirChain new written left ∧
    Released left after.view chain

/-- A chain was taken and released. A directory stays longer if an insertion was stranded. -/
def Undone (store : Store) (stranded : Nat → Nat → Prop) (after : Store) : Prop :=
  (∃ written chain, Taken store.volume.toLayout store.view written chain ∧
    Released written after.view chain) ∨
  ∃ last new, stranded last new ∧ Outgrown store last new after

theorem Undone.refl (store : Store) (stranded : Nat → Nat → Prop) :
    Undone store stranded store :=
  Or.inl ⟨store.view, [], .nil .., .refl .., rfl, nofun⟩

theorem Undone.mono {stranded other : Nat → Nat → Prop} {after : Store}
    (undone : Undone store stranded after)
    (weaker : ∀ last new, stranded last new → other last new) :
    Undone store other after :=
  undone.imp_right fun ⟨last, new, strands, outgrown⟩ =>
    ⟨last, new, weaker last new strands, outgrown⟩

omit [CaseMapping] in
/-- A new chain is apart from the directories. -/
theorem Taken.dirData {before after : View} (taken : Taken layout before after chain)
    (data : layout.DirData before dir dirChain bytes) :
    layout.DirData after dir dirChain bytes ∧ ∀ cluster ∈ dirChain, cluster ∉ chain := by
  have apart : ∀ cluster ∈ dirChain, cluster ∉ chain := by
    intro cluster inDir inChain
    have linked := (data.chainOf (data.chained_of_mem inDir)).2.1
    exact linked.entry_ne_zero inDir (taken.free cluster inChain)
  exact ⟨data.of_agrees taken.agrees apart, apart⟩

omit [CaseMapping] in
/-- The growth of a directory does not affect chains that are apart from it. -/
theorem GrowStep.chainOf {before after : View} {new : Nat}
    (grow : GrowStep layout dir dirChain new before after)
    (linked : layout.ChainOf before.entry first chain)
    (apart : ∀ cluster ∈ dirChain, cluster ∉ chain) : layout.ChainOf after.entry first chain := by
  refine linked.congr fun cluster member => grow.agrees.entry cluster ?_
  rintro (rfl | shared)
  · exact linked.entry_ne_zero member grow.free
  · exact apart cluster shared member

omit [CaseMapping] in
/-- Releasing a chain on a device that does not fail. -/
theorem free_reliable (mounted : Mounted start limit store) (reliable : store.disk.Reliable)
    (linked : store.volume.ChainOf store.view.entry first chain)
    (short : chain.length ≤ maxFile / store.volume.bytes + 1) :
    (free first).Meets store (fun _ after => Mounted start limit after ∧ Kept start store after ∧
        Released store.view after.view chain) (fun _ _ => False) :=
  (free_meets mounted linked short).loosen
    fun _ _ stopped => stopped.unreliable reliable

omit [CaseMapping] in
/-- The first cluster of a chain fits into a directory entry. -/
theorem Layout.Placed.first_lt_modulus (placed : layout.Placed start limit) {entry : Nat → Nat}
    (linked : layout.ChainOf entry first chain) : first < layout.kind.modulus := by
  by_cases none : first = 0
  · rw [none]
    cases layout.kind <;> decide
  · exact placed.valid_lt_modulus (linked.valid (linked.linked none).first_mem)

/-- A record was added to a directory. -/
def Published (layout : Layout) (dir : Dir) (name : List Char) (cluster size : Nat) (attr : UInt8)
    (before after : View) : Prop :=
  ∃ middle chain other bytes short count place,
    Inserted layout dir name cluster size attr before middle after chain other bytes short count
      place

section

variable (mounted : Mounted start limit store) (reliable : store.disk.Reliable)
  (linked : store.volume.ChainOf store.view.entry first chain)
  (short : chain.length ≤ maxFile / store.volume.bytes + 1)
include mounted reliable linked short

omit [CaseMapping] in
theorem rollback_meets (reason : FatError) :
    (rollback first reason).Meets store (fun _ _ => False)
      (fun _ after => Works start limit store after ∧ Released store.view after.view chain) := by
  refine .gets ?_
  have released : (Program.when (store.volume.failed = false) (free first).ignore).Leaves store
      fun after => Works start limit store after ∧ Released store.view after.view chain := by
    refine .when (fun _ => .ignore ?_) fun failed => absurd mounted.working failed
    exact (free_reliable mounted reliable linked short).mono
      (fun _ after ⟨mountedAfter, kept, released⟩ => ⟨⟨mountedAfter, kept⟩, released⟩) nofun
  exact released.bind fun _ after done => .fail done

end

section

variable {written : Store} (works : Works start limit store written)
  (reliable : store.disk.Reliable)
  (taken : Taken store.volume.toLayout store.view written.view chain)
  (short : chain.length ≤ maxFile / store.volume.bytes + 1)
  (live : store.volume.Live store.view dir)
  (data : store.volume.DirData store.view dir dirChain bytes)
include works reliable taken short live data

/-- What is undone when a chain could not be entered into a directory. -/
theorem undo_meets {reason : FatError} {left : Store} {attr : UInt8}
    (run : insert dir name (chain.head?.getD 0) size attr written = (.error reason, left)) :
    (rollback (chain.head?.getD 0) reason).Meets left (fun _ _ => False) (fun _ after =>
      Works start limit store after ∧
        (left = written ∧ Released written.view after.view chain ∨
          ∃ last new, Strands dir name (chain.head?.getD 0) size attr written last new ∧
            Outgrown store last new after)) := by
  obtain ⟨mountedLeft, kept, cause⟩ :=
    (insert_meets works.mounted (works.kept.reliable reliable) dir name _ size attr).error run
  have layout := works.kept.layout
  have worksLeft := works.trans ⟨mountedLeft, kept⟩
  obtain ⟨dataWritten, apart⟩ := taken.dirData data
  have linked : left.volume.ChainOf left.view.entry (chain.head?.getD 0) chain := by
    rw [worksLeft.kept.layout]
    rcases cause with rfl | ⟨_, _, _, _, _, otherData, _, _, _, grow⟩
    · exact taken.linked
    · rw [layout] at otherData grow
      obtain ⟨rfl, _⟩ := otherData.unique dataWritten
      exact grow.chainOf taken.linked apart
  refine (rollback_meets mountedLeft (worksLeft.kept.reliable reliable) linked
    (by rw [worksLeft.kept.layout]; exact short) reason).mono nofun ?_
  rintro _ after ⟨worksAfter, released⟩
  refine ⟨worksLeft.trans worksAfter, ?_⟩
  by_cases same : left = written
  · subst same
    exact Or.inl ⟨rfl, released⟩
  · obtain ⟨last, new, _, _, reserved, otherData, room, ends, allocation, grow⟩ :=
      cause.resolve_left same
    have loaded := works.mounted.loadDir_eq_ok_iff.mpr ⟨otherData, Nat.le_of_succ_le room⟩
    refine Or.inr ⟨last, new, ⟨⟨reason, left, run, same⟩, ⟨_, _, loaded, ends⟩, reserved,
      allocation⟩, ?_⟩
    rw [layout] at otherData room grow
    obtain ⟨rfl, rfl⟩ := otherData.unique dataWritten
    exact ⟨dir, _, _, written.view, left.view, chain, live, data, room, ends, taken, grow,
      released⟩

theorem publish_meets (name : List Char) (size : Nat) (attr : UInt8) :
    ((insert dir name (chain.head?.getD 0) size attr).handle
      (rollback (chain.head?.getD 0))).Meets written
      (fun _ after => Works start limit store after ∧ Published store.volume.toLayout dir name
        (chain.head?.getD 0) size attr written.view after.view)
      (fun _ after => Works start limit store after ∧
        Undone store (Strands dir name (chain.head?.getD 0) size attr written) after) := by
  rcases (insert_meets works.mounted (works.kept.reliable reliable) dir name (chain.head?.getD 0)
    size attr).cases with ⟨_, after, run, mountedAfter, kept, inserted⟩ | ⟨_, _, run, _⟩
  · rw [works.kept.layout] at inserted
    exact .of_ok (Program.handle_of_ok run) ⟨works.trans ⟨mountedAfter, kept⟩, inserted⟩
  · refine .of_eq (Program.handle_of_error run)
      ((undo_meets works reliable taken short live data run).mono nofun ?_)
    rintro _ _ ⟨worksAfter, cause⟩
    exact ⟨worksAfter, cause.imp_left fun released => ⟨_, chain, taken, released.2⟩⟩

/-- A stranded insertion leaves the directory longer. -/
theorem Strands.fails {attr : UInt8} {last new : Nat}
    (strands : Strands dir name (chain.head?.getD 0) size attr written last new) :
    ∃ reason after, ((insert dir name (chain.head?.getD 0) size attr).handle
        (rollback (chain.head?.getD 0))) written = (.error reason, after) ∧
      Works start limit store after ∧ Outgrown store last new after := by
  obtain ⟨⟨_, _, run, changed⟩, ⟨_, _, loaded, ends⟩, _, allocation⟩ := strands
  rcases (undo_meets works reliable taken short live data run).cases with
    ⟨_, _, _, impossible⟩ | ⟨reason, after, undone, worksAfter, cause⟩
  · exact impossible.elim
  obtain ⟨_, _, ⟨_, ⟨_, _, otherLoaded, otherEnds⟩, _, otherAllocation⟩, outgrown⟩ :=
    cause.resolve_left fun stayed => changed stayed.1
  rw [loaded] at otherLoaded
  cases otherLoaded
  rw [ends] at otherEnds
  cases otherEnds
  rw [allocation] at otherAllocation
  cases otherAllocation
  exact ⟨reason, after, (Program.handle_of_error run).trans undone, worksAfter, outgrown⟩

end

end Publish

/-! ### Creating files and directories -/

section Create

variable [CaseMapping] {start limit : Nat} {store : Store}

/-- A file with some data was created. -/
def Created (layout : Layout) (dir : Dir) (name : List Char) (data : List UInt8)
    (before after : View) : Prop :=
  data.length ≤ maxFile ∧ ∃ written chain, written.Shaped layout ∧
    Taken layout before written chain ∧ chain.length = layout.needed data.length ∧
    written.Holds chain data ∧
    Published layout dir name (chain.head?.getD 0) data.length 0x20 written after

omit [CaseMapping] in
/-- Writing data on a device that does not fail. -/
theorem writeData_reliable (mounted : Mounted start limit store) (reliable : store.disk.Reliable)
    (data : List UInt8) :
    (writeData data).Meets store
      (fun first after => Mounted start limit after ∧ Kept start store after ∧
        data.length ≤ maxFile ∧ ∃ chain, Taken store.volume.toLayout store.view after.view chain ∧
          first = chain.head?.getD 0 ∧ chain.length = store.volume.needed data.length ∧
          after.view.Holds chain data) (fun _ after => after = store) :=
  (writeData_meets mounted data).loosen fun _ _ failed =>
    (failed.resolve_right fun stopped => stopped.unreliable reliable).2

omit [CaseMapping] in
/-- The chain of a file is not too long to be released. -/
theorem Ready.needed_short (ready : Ready start limit store) (small : size ≤ maxFile) :
    store.volume.needed size ≤ maxFile / store.volume.bytes + 1 := by
  have positive := ready.placed.bytes_pos
  rw [Layout.needed]
  refine Nat.le_trans (Nat.div_le_div_right (by omega : _ ≤ maxFile + store.volume.bytes)) ?_
  rw [Nat.add_div_right _ positive]

/-- A file could not be created, and its directory stays longer. -/
def StrandsFile (store : Store) (path : List Char) (data : List UInt8) (last new : Nat) : Prop :=
  ∃ dir name chain bytes first written, store.parent path = .ok (dir, name) ∧
    validName name = true ∧ store.loadDir dir = .ok (chain, bytes) ∧
    findRecord bytes store.volume.kind name = none ∧
    writeData data store = (.ok first, written) ∧
    Strands dir name first data.length 0x20 written last new

/-- A directory without short entries. -/
def NoShort (bytes : List UInt8) : Prop := ∀ entry ∈ entries bytes, mark entry ≠ .short

theorem NoShort.records (none : NoShort bytes) (kind : Kind) : records bytes kind = [] := by
  refine eq_nil_iff_forall_not_mem.mpr fun record member => ?_
  obtain ⟨_, entry, slot⟩ := mem_records.mp member
  exact none entry (mem_of_getElem? slot.found) slot.short

theorem NoShort.patch {new : List UInt8} (none : NoShort bytes) (whole : new.length = entrySize)
    (inside : position < (entries bytes).length) (other : mark new ≠ .short) :
    NoShort (patch bytes (position * entrySize) new) := by
  intro entry member
  rw [entries_patch whole inside] at member
  rcases mem_or_eq_of_mem_set member with old | rfl
  · exact none entry old
  · exact other

/-- The names of the first two entries of a directory. -/
def dotName : List UInt8 := 0x2e :: List.replicate 10 0x20

def dotdotName : List UInt8 := 0x2e :: 0x2e :: List.replicate 9 0x20

theorem mark_dot {short : List UInt8} (dot : short = dotName ∨ short = dotdotName)
    (first : Nat) (kind : Kind) : mark (shortEntry short first 0 0x10 kind) ≠ .short := by
  have length : short.length = 11 := by rcases dot with rfl | rfl <;> rfl
  obtain ⟨attr, case⟩ := field_shortEntry length first 0 0x10 kind
  have skips : skipped (shortEntry short first 0 0x10 kind) = true := by
    rw [skipped, take_shortEntry length, attr, case]
    rcases dot with rfl | rfl <;> rfl
  rw [mark, skips]
  split
  · simp
  · split
    · simp
    · split <;> simp

/-- A new directory has no records. -/
theorem records_newDirectory (positive : 0 < layout.spc) (cluster parent : Nat) :
    records (newDirectory layout cluster parent) layout.kind = [] := by
  have room : 2 ≤ layout.bytes / entrySize := by
    rw [Layout.bytes]
    unfold sectorSize entrySize
    omega
  have blank : NoShort (List.replicate layout.bytes 0) := by
    intro entry member
    obtain ⟨_, found⟩ := mem_iff_getElem?.mp member
    have zero : mark entry = .finish := by
      rw [mark_eq_finish, field_of_entry found (by decide), getElem?_replicate]
      split <;> rfl
    rw [zero]
    simp
  have length : (entries (List.replicate layout.bytes 0)).length = layout.bytes / entrySize := by
    rw [length_entries, length_replicate]
  have first : 0 < (entries (List.replicate layout.bytes 0)).length := by omega
  have dotLength : (shortEntry dotName cluster 0 0x10 layout.kind).length = entrySize :=
    length_shortEntry rfl cluster 0 0x10 layout.kind
  have dots := blank.patch dotLength first (mark_dot (Or.inl rfl) cluster layout.kind)
  have second : 1 < (entries (patch (List.replicate layout.bytes 0) (0 * entrySize)
      (shortEntry dotName cluster 0 0x10 layout.kind))).length := by
    rw [entries_patch dotLength first, length_set]
    omega
  exact (dots.patch (length_shortEntry rfl parent 0 0x10 layout.kind) second
    (mark_dot (Or.inr rfl) parent layout.kind)).records layout.kind

theorem not_recordIn_newDirectory {view : View} {new parent : Nat} (positive : 0 < layout.spc)
    (linked : layout.ChainOf view.entry new [new])
    (contents : view.data new = newDirectory layout new parent) (record : Record) :
    ¬layout.RecordIn view ⟨new, false⟩ record := by
  intro inside
  have data : layout.DirData view ⟨new, false⟩ [new] ([new].flatMap view.data) :=
    .of_chainOf rfl linked (cons_ne_nil _ _)
  rw [flatMap_singleton, contents] at data
  have listed := data.recordIn.mp inside
  rw [records_newDirectory positive] at listed
  cases listed

omit [CaseMapping] in
theorem Layout.two_entries (positive : 0 < layout.spc) : 2 * entrySize ≤ layout.bytes := by
  rw [bytes]
  unfold sectorSize entrySize
  omega

omit [CaseMapping] in
theorem length_newDirectory (positive : 0 < layout.spc) (cluster parent : Nat) :
    (newDirectory layout cluster parent).length = layout.bytes := by
  have room := Layout.two_entries positive
  have dotLength : (shortEntry dotName cluster 0 0x10 layout.kind).length = entrySize :=
    length_shortEntry rfl cluster 0 0x10 layout.kind
  have dotdotLength : (shortEntry dotdotName parent 0 0x10 layout.kind).length = entrySize :=
    length_shortEntry rfl parent 0 0x10 layout.kind
  have first : (patch (List.replicate layout.bytes 0) 0
      (shortEntry dotName cluster 0 0x10 layout.kind)).length = layout.bytes := by
    rw [length_patch (by rw [dotLength, length_replicate]; omega), length_replicate]
  have room : entrySize + (shortEntry dotdotName parent 0 0x10 layout.kind).length ≤
      (patch (List.replicate layout.bytes 0) 0
        (shortEntry dotName cluster 0 0x10 layout.kind)).length := by
    rw [first, dotdotLength]
    omega
  exact (length_patch room).trans first

omit [CaseMapping] in
/-- A cluster that was taken gets the bytes of a new directory. -/
theorem Mounted.newDirectory (mounted : Mounted start limit store)
    (reliable : store.disk.Reliable) {reserved : Store} {new : Nat}
    (allocation : allocate 1 store = (.ok [new], reserved)) (parent : Nat) :
    ∃ written, writeCluster new (newDirectory store.volume.toLayout new parent) reserved =
        (.ok (), written) ∧ Works start limit store written ∧
      Taken store.volume.toLayout store.view written.view [new] ∧
      written.view.data new = Fat.newDirectory store.volume.toLayout new parent := by
  obtain ⟨mountedFirst, kept, _, allocated⟩ := (allocate_meets mounted 1).ok allocation
  have layout := kept.layout
  obtain ⟨_, written, stored, moved, view⟩ := ((writeCluster_meets mountedFirst.toReady (by
    rw [layout]
    exact allocated.linked.valid (mem_singleton_self _)) (by
    rw [layout]
    exact length_newDirectory mounted.placed.spc_pos new parent)).loosen fun _ _ stopped =>
      stopped.unreliable (kept.reliable reliable)).returned
  refine ⟨written, stored, ⟨mountedFirst.moved moved (by rw [view]; rfl),
    kept.trans moved.kept⟩, ?_, ?_⟩
  · rw [view]
    exact ⟨allocated.agrees.trans ((View.AgreesOff.store ..).mono fun _ => mem_singleton.mpr),
      allocated.linked, allocated.free⟩
  · rw [view, View.store_data_self]

/-- A directory was made. -/
def MadeDir (layout : Layout) (dir : Dir) (name : List Char) (before after : View) : Prop :=
  ∃ written new, written.Shaped layout ∧ Taken layout before written [new] ∧
    written.data new = newDirectory layout new (if dir.root then 0 else dir.cluster) ∧
    Published layout dir name new 0 0x10 written after

/-- A directory could not be made, and the one above it stays longer. -/
def StrandsDir (store : Store) (path : List Char) (last new : Nat) : Prop :=
  ∃ dir name chain bytes first reserved written, store.parent path = .ok (dir, name) ∧
    validName name = true ∧ store.loadDir dir = .ok (chain, bytes) ∧
    findRecord bytes store.volume.kind name = none ∧
    allocate 1 store = (.ok [first], reserved) ∧
    writeCluster first (newDirectory store.volume.toLayout first
      (if dir.root then 0 else dir.cluster)) reserved = (.ok (), written) ∧
    Strands dir name first 0 0x10 written last new

end Create

/-! ### Replacing the contents of a file -/

section Replace

variable [CaseMapping] {start limit : Nat} {store : Store}

/-- The record of a file was made to point to new data. -/
def Swapped (layout : Layout) (dir : Dir) (record : Record) (data : List UInt8)
    (before after : View) : Prop :=
  data.length ≤ maxFile ∧ ∃ written chain dirChain bytes position entry, written.Shaped layout ∧
    Taken layout before written chain ∧ chain.length = layout.needed data.length ∧
    written.Holds chain data ∧ layout.DirData before dir dirChain bytes ∧
    dirChain.length ≤ maxMetadata / layout.bytes ∧
    SlotAt layout.kind (entries bytes) position entry record ∧
    Rewritten layout dir dirChain
      (retargetBytes bytes position (chain.head?.getD 0) data.length layout.kind) written after

/-- The data of a file was replaced, and the old data released. -/
def Replaced (layout : Layout) (dir : Dir) (record : Record) (data : List UInt8)
    (before after : View) : Prop :=
  ∃ middle chain, Swapped layout dir record data before middle ∧
    layout.ChainOf middle.entry record.cluster chain ∧
    chain.length ≤ maxFile / layout.bytes + 1 ∧ Released middle after chain

/-- New data can be written, but then the old chain of a file cannot be released. The chain is
walked when the data is written, as a link to a free cluster may lead into the new data then. -/
def Stuck (store : Store) (record : Record) (data : List UInt8) : Prop :=
  ∃ first written reason, writeData data store = (.ok first, written) ∧
    written.volume.chain record.cluster (maxFile / written.volume.bytes + 1) = .error reason

omit [CaseMapping] in
/-- A file whose chain cannot be released cannot be read either. -/
theorem Stuck.unreadable {data old : List UInt8} (stuck : Stuck store record data)
    (mounted : Mounted start limit store) (reliable : store.disk.Reliable) :
    store.data record ≠ .ok old := by
  intro read
  obtain ⟨_, written, _, run, failed⟩ := stuck
  obtain ⟨mountedAfter, kept, _, _, taken, _⟩ := (writeData_reliable mounted reliable data).ok run
  obtain ⟨_, walked⟩ := Store.chain_of_data read
  obtain ⟨linked, short⟩ := mounted.chain_eq_ok_iff.mp walked
  have layout := kept.layout
  rw [← layout] at linked short
  have again := mountedAfter.chain_eq_ok_iff.mpr ⟨linked.congr fun cluster member =>
    taken.agrees.entry cluster fun inChain =>
      linked.entry_ne_zero member (taken.free cluster inChain), short⟩
  cases failed.symm.trans again

/-- A path names a record of a directory that can be read. -/
structure Names (store : Store) (path : List Char) (dir : Dir) (name : List Char)
    (record : Record) : Prop where
  parent : store.parent path = .ok (dir, name)
  listed : ∃ listed, store.listing dir = some listed ∧
    listed.find? (Record.answers name) = some record

/-- A file has new contents, and was created if it did not exist. -/
def Wrote (store : Store) (path : List Char) (data : List UInt8) (after : Store) : Prop :=
  ∃ dir name, store.parent path = .ok (dir, name) ∧
    (Created store.volume.toLayout dir name data store.view after.view ∨
      ∃ record, Names store path dir name record ∧ record.isDir = false ∧
        Replaced store.volume.toLayout dir record data store.view after.view)

theorem Names.overwrite_eq (names : Names store path dir name record)
    (mounted : Mounted start limit store) (data : List UInt8) : overwrite path data store =
      if validName name = true then replace dir record data store
      else (.error .invalidName, store) := by
  obtain ⟨parent, _, lists, finds⟩ := names
  obtain ⟨chain, _, dirData, short, rfl⟩ := mounted.listing_eq_some.mp lists
  have loaded := mounted.loadDir_eq_ok_iff.mpr ⟨dirData, short⟩
  simp only [overwrite, Program.run_bind, check_of_working mounted.working, Program.run_reads,
    parent, validateName]
  by_cases valid : validName name = true
  · simp only [if_pos valid, loaded, Program.gets, findRecord_eq, finds]
  · simp only [if_neg valid]

/-- A path names a file that may be overwritten, but whose chain cannot be released once the new
data is written. -/
def Unreleasable (store : Store) (path : List Char) (data : List UInt8) (dir : Dir)
    (record : Record) : Prop :=
  ∃ name, Names store path dir name record ∧ validName name = true ∧ record.isDir = false ∧
    record.attr &&& 1 = 0 ∧ Stuck store record data

theorem Names.resolves (names : Names store path dir name record) :
    resolve store.listing store.volume.root (components path) = some (dir, record) := by
  obtain ⟨parent, _, lists, finds⟩ := names
  obtain ⟨split, entered⟩ := Store.parent_eq_ok.mp parent
  rw [split, resolve_concat, entered, Option.bind_some, lists, Option.bind_some, finds]
  rfl

/-- Data was added to the end of a file, which was created if it did not exist. -/
def Appended (store : Store) (path : List Char) (data : List UInt8) (after : Store) : Prop :=
  (∃ dir name, store.parent path = .ok (dir, name) ∧
    (∀ record, ¬Names store path dir name record) ∧
    Created store.volume.toLayout dir name data store.view after.view) ∨
  ∃ old, store.readFile path = some old ∧ Wrote store path (old ++ data) after

end Replace

/-! ### Deleting -/

section Delete

variable [CaseMapping] {start limit : Nat} {store : Store}

/-- A record was removed and its chain released. A directory that is removed has no records. -/
def Removed (layout : Layout) (dir : Dir) (record : Record) (before after : View) : Prop :=
  ∃ middle dirChain bytes chain, layout.DirData before dir dirChain bytes ∧
    dirChain.length ≤ maxMetadata / layout.bytes ∧ record ∈ records bytes layout.kind ∧
    (record.isDir = true → ∀ other, ¬layout.RecordIn before ⟨record.cluster, false⟩ other) ∧
    Rewritten layout dir dirChain (erase bytes record) before middle ∧
    layout.ChainOf middle.entry record.cluster chain ∧ Released middle after chain

/-- A directory that may be deleted has no records. -/
theorem Ready.empty_of_checkEmpty (ready : Ready start limit store) {value : Unit}
    (checked : store.checkEmpty record = .ok value) (isDir : record.isDir = true) (other : Record) :
    ¬store.volume.RecordIn store.view ⟨record.cluster, false⟩ other := by
  intro found
  rw [Store.checkEmpty, if_pos isDir, Outcome.bind_eq_ok] at checked
  obtain ⟨⟨_, _⟩, loaded, checked⟩ := checked
  have data := (ready.loadDir_eq_ok_iff.mp loaded).1
  simp only at checked
  split at checked
  · rename_i empty
    rw [data.recordIn, List.isEmpty_iff.mp empty] at found
    cases found
  · cases checked

end Delete

/-! ### What the operations do -/

section Operations

variable [CaseMapping] {start limit : Nat} {store : Store} (mounted : Mounted start limit store)
  (reliable : store.disk.Reliable)
include mounted reliable

theorem create_meets (path : List Char) (data : List UInt8) :
    (create path data).Meets store
      (fun _ after => Works start limit store after ∧ ∃ dir name,
        store.parent path = .ok (dir, name) ∧
          Created store.volume.toLayout dir name data store.view after.view)
      (fun _ after => Works start limit store after ∧
        Undone store (StrandsFile store path data) after) := by
  have stay : Works start limit store store ∧ Undone store (StrandsFile store path data) store :=
    ⟨.refl mounted, .refl ..⟩
  refine .step (check_of_working mounted.working) ?_
  refine .reads (parent_robust mounted.loaded path).ne_panic
    (fun (dir, name) parent => ?_) fun _ _ => stay
  refine .reads (validateName_safe name) (fun _ checked => ?_) fun _ _ => stay
  refine .reads (loadDir_loads mounted.loaded dir).ne_panic
    (fun (dirChain, bytes) loaded => ?_) fun _ _ => stay
  refine .gets ?_
  refine .guard stay fun exists_ => ?_
  rcases (writeData_reliable mounted reliable data).cases with
    ⟨_, middle, written, mountedMiddle, kept, small, chain, taken, rfl, length, holds⟩ |
      ⟨_, _, refused, rfl⟩
  swap
  · exact .of_error (Program.bind_of_error refused) stay
  refine .step written ?_
  have works : Works start limit store middle := ⟨mountedMiddle, kept⟩
  have shaped : middle.view.Shaped store.volume.toLayout := by
    rw [← kept.layout]
    exact middle.shaped
  refine (publish_meets works reliable taken (by rw [length]; exact mounted.needed_short small)
    (mounted.live_of_parent parent) (mounted.loadDir_eq_ok_iff.mp loaded).1 name data.length
    0x20).mono ?_ ?_
  · rintro _ _ ⟨worksAfter, published⟩
    exact ⟨worksAfter, dir, name, parent, small, middle.view, chain, shaped, taken, length, holds,
      published⟩
  · rintro _ _ ⟨worksAfter, undone⟩
    refine ⟨worksAfter, undone.mono fun last new strands => ?_⟩
    exact ⟨dir, name, dirChain, bytes, _, middle, parent, validateName_eq_ok checked, loaded,
      Option.not_isSome_iff_eq_none.mp exists_, written, strands⟩

theorem mkdir_meets (path : List Char) :
    (mkdir path).Meets store
      (fun _ after => Works start limit store after ∧ ∃ dir name,
        store.parent path = .ok (dir, name) ∧
          MadeDir store.volume.toLayout dir name store.view after.view)
      (fun _ after => Works start limit store after ∧
        Undone store (StrandsDir store path) after) := by
  have stay : Works start limit store store ∧ Undone store (StrandsDir store path) store :=
    ⟨.refl mounted, .refl ..⟩
  refine .step (check_of_working mounted.working) ?_
  refine .reads (parent_robust mounted.loaded path).ne_panic
    (fun (dir, name) parent => ?_) fun _ _ => stay
  refine .reads (validateName_safe name) (fun _ checked => ?_) fun _ _ => stay
  refine .reads (loadDir_loads mounted.loaded dir).ne_panic
    (fun (dirChain, bytes) loaded => ?_) fun _ _ => stay
  refine .gets ?_
  refine .guard stay fun exists_ => ?_
  rcases (allocate_meets mounted 1).cases with
    ⟨_, reserved, allocation, _, _, one, _⟩ | ⟨_, _, refused, failed⟩
  swap
  · refine .of_error (Program.bind_of_error refused) ?_
    exact (failed.resolve_right fun stopped => stopped.unreliable reliable).2 ▸ stay
  refine .step allocation ?_
  obtain ⟨new, rfl⟩ := length_eq_one_iff.mp one
  refine .expect rfl ?_
  refine .require (Layout.two_entries mounted.placed.spc_pos) ?_
  obtain ⟨middle, stored, worksMiddle, taken, contents⟩ :=
    mounted.newDirectory reliable allocation (if dir.root then 0 else dir.cluster)
  refine .step stored ?_
  have shaped : middle.view.Shaped store.volume.toLayout := by
    rw [← worksMiddle.kept.layout]
    exact middle.shaped
  refine (publish_meets worksMiddle reliable taken (by simp) (mounted.live_of_parent parent)
    (mounted.loadDir_eq_ok_iff.mp loaded).1 name 0 0x10).mono ?_ ?_
  · rintro _ _ ⟨worksAfter, published⟩
    exact ⟨worksAfter, dir, name, parent, middle.view, new, shaped, taken, contents, published⟩
  · rintro _ _ ⟨worksAfter, undone⟩
    refine ⟨worksAfter, undone.mono fun last next strands => ?_⟩
    exact ⟨dir, name, dirChain, bytes, new, _, middle, parent, validateName_eq_ok checked, loaded,
      Option.not_isSome_iff_eq_none.mp exists_, allocation, stored, strands⟩

section

variable {dirChain : List Nat} (dirData : store.volume.DirData store.view dir dirChain bytes)
  (short : dirChain.length ≤ maxMetadata / store.volume.bytes)
  (member : record ∈ records bytes store.volume.kind) (data : List UInt8)
include dirData short member

/-- Publishing new data in the record of a file fails exactly where its old chain cannot be
released. -/
theorem swap_meets {middle : Store} (written : writeData data store = (.ok first, middle)) :
    (do (update dir record first data.length).handle (rollback first)
        free record.cluster : Driver Unit).Meets middle
      (fun _ after => Works start limit store after ∧
        Replaced store.volume.toLayout dir record data store.view after.view ∧
        ∃ old, middle.volume.chain record.cluster (maxFile / middle.volume.bytes + 1) = .ok old)
      (fun _ after => Works start limit store after ∧
        Swapped store.volume.toLayout dir record data store.view after.view ∧ ∃ reason,
          middle.volume.chain record.cluster (maxFile / middle.volume.bytes + 1) =
            .error reason) := by
  obtain ⟨mountedMiddle, kept, small, chain, taken, rfl, length, holds⟩ :=
    (writeData_reliable mounted reliable data).ok written
  have layout := kept.layout
  obtain ⟨position, entry, slot⟩ := mem_records.mp member
  obtain ⟨dataMiddle, _⟩ := taken.dirData dirData
  refine .bind (.handle ((update_meets mountedMiddle.toReady (by rw [layout]; exact dataMiddle)
    (by rw [layout]; exact short) (by rw [layout]; exact slot) _ data.length).loosen
    fun _ _ stopped => stopped.unreliable (kept.reliable reliable)) nofun) ?_
  rintro _ last ⟨moved, rewritten⟩
  have mountedLast : Mounted start limit last :=
    mountedMiddle.moved moved (by rw [rewritten.entry])
  have works : Works start limit store last := ⟨mountedLast, kept.trans moved.kept⟩
  have bound : maxFile / last.volume.bytes + 1 = maxFile / middle.volume.bytes + 1 := by
    rw [moved.kept.layout]
  have walks : ∀ {old}, last.volume.ChainOf last.view.entry record.cluster old ↔
      middle.volume.ChainOf middle.view.entry record.cluster old := by
    rw [rewritten.entry, moved.kept.layout]
  have swapped : Swapped store.volume.toLayout dir record data store.view last.view := by
    rw [layout] at rewritten
    refine ⟨small, middle.view, chain, dirChain, bytes, position, entry, ?_, taken, length, holds,
      dirData, short, slot, rewritten⟩
    rw [← layout]
    exact middle.shaped
  rcases mountedMiddle.chain_cases record.cluster (maxFile / middle.volume.bytes + 1) with
    ⟨old, found⟩ | failed
  · obtain ⟨linked, oldShort⟩ := mountedMiddle.chain_eq_ok_iff.mp found
    rw [← bound] at oldShort
    refine (free_reliable mountedLast (works.kept.reliable reliable) (walks.mpr linked)
      oldShort).mono ?_ nofun
    rintro _ after ⟨mountedAfter, keptAfter, released⟩
    refine ⟨works.trans ⟨mountedAfter, keptAfter⟩, ⟨last.view, old, swapped, ?_, ?_, released⟩,
      old, found⟩
    · rw [← works.kept.layout]
      exact walks.mpr linked
    · rw [← works.kept.layout]
      exact oldShort
  · have stuck : free record.cluster last = (.error .invalidChain, last) := by
      refine Program.bind_of_error (Prod.ext ?_ rfl)
      rcases mountedLast.chain_cases record.cluster (maxFile / last.volume.bytes + 1) with
        ⟨old, found⟩ | same
      · obtain ⟨linked, oldShort⟩ := mountedLast.chain_eq_ok_iff.mp found
        rw [bound] at oldShort
        cases failed.symm.trans (mountedMiddle.chain_eq_ok_iff.mpr ⟨walks.mp linked, oldShort⟩)
      · exact same
    exact .of_error stuck ⟨works, swapped, _, failed⟩

theorem replace_meets :
    (replace dir record data).Meets store
      (fun _ after => Works start limit store after ∧ record.isDir = false ∧
        Replaced store.volume.toLayout dir record data store.view after.view)
      (fun _ after => after = store ∨ Works start limit store after ∧ record.isDir = false ∧
        record.attr &&& 1 = 0 ∧ Stuck store record data ∧
        Swapped store.volume.toLayout dir record data store.view after.view) := by
  rw [replace]
  refine .guard (Or.inl rfl) fun isDir => ?_
  have file := Bool.eq_false_iff.mpr isDir
  refine .guard (Or.inl rfl) fun readOnly => ?_
  rcases (writeData_reliable mounted reliable data).cases with
    ⟨first, middle, written, _⟩ | ⟨reason, middle, refused, rfl⟩
  · refine .step written ((swap_meets mounted reliable dirData short member data written).mono
      ?_ ?_)
    · exact fun _ _ ⟨works, replaced, _⟩ => ⟨works, file, replaced⟩
    · exact fun _ _ ⟨works, swapped, reason, failed⟩ => Or.inr ⟨works, file, not_not.mp readOnly,
        ⟨first, middle, reason, written, failed⟩, swapped⟩
  · exact .of_error (Program.bind_of_error refused) (Or.inl rfl)

end

theorem overwrite_meets (path : List Char) (data : List UInt8) :
    (overwrite path data).Meets store
      (fun _ after => Works start limit store after ∧ Wrote store path data after)
      (fun _ after => Works start limit store after ∧
        (Undone store (StrandsFile store path data) after ∨ ∃ dir record,
          Unreleasable store path data dir record ∧
          Swapped store.volume.toLayout dir record data store.view after.view)) := by
  have stay : Works start limit store store ∧ Undone store (StrandsFile store path data) store :=
    ⟨.refl mounted, .refl ..⟩
  refine .step (check_of_working mounted.working) ?_
  refine .reads (parent_robust mounted.loaded path).ne_panic
    (fun (dir, name) parent => ?_) fun _ _ => stay.imp_right Or.inl
  refine .reads (validateName_safe name) (fun _ checked => ?_) fun _ _ => stay.imp_right Or.inl
  refine .reads (loadDir_loads mounted.loaded dir).ne_panic (fun (dirChain, bytes) loaded => ?_)
    fun _ _ => stay.imp_right Or.inl
  refine .gets ?_
  cases found : findRecord bytes store.volume.kind name with
  | none =>
    refine (create_meets mounted reliable path data).mono ?_ fun _ _ undone =>
      undone.imp_right Or.inl
    rintro _ after ⟨works, otherDir, otherName, otherParent, created⟩
    exact ⟨works, otherDir, otherName, otherParent, Or.inl created⟩
  | some record =>
    obtain ⟨dirData, short⟩ := mounted.loadDir_eq_ok_iff.mp loaded
    have names : Names store path dir name record :=
      ⟨parent, _, mounted.listing_eq_some.mpr ⟨_, _, dirData, short, rfl⟩, found⟩
    refine (replace_meets mounted reliable dirData short
      (mem_of_find?_eq_some found) data).mono ?_ ?_
    · rintro _ _ ⟨works, file, replaced⟩
      exact ⟨works, dir, name, parent, Or.inr ⟨record, names, file, replaced⟩⟩
    · rintro _ _ (rfl | ⟨works, file, writable, stuck, swapped⟩)
      · exact stay.imp_right Or.inl
      · exact ⟨works, Or.inr ⟨dir, record,
          ⟨name, names, validateName_eq_ok checked, file, writable, stuck⟩, swapped⟩⟩

theorem appendFile_meets (path : List Char) (data : List UInt8) :
    (appendFile path data).Meets store
      (fun _ after => Works start limit store after ∧ Appended store path data after)
      (fun _ after => Works start limit store after ∧
        Undone store (StrandsFile store path data) after) := by
  have stay : Works start limit store store ∧ Undone store (StrandsFile store path data) store :=
    ⟨.refl mounted, .refl ..⟩
  refine .reads (parent_robust mounted.loaded path).ne_panic
    (fun (dir, name) parent => ?_) fun _ _ => stay
  refine .reads (loadDir_loads mounted.loaded dir).ne_panic
    (fun (dirChain, bytes) loaded => ?_) fun _ _ => stay
  refine .gets ?_
  obtain ⟨dirData, short⟩ := mounted.loadDir_eq_ok_iff.mp loaded
  have lists : store.listing dir = some (records bytes store.volume.kind) :=
    mounted.listing_eq_some.mpr ⟨_, _, dirData, short, rfl⟩
  cases found : findRecord bytes store.volume.kind name with
  | none =>
    refine (create_meets mounted reliable path data).imp ?_
    rintro _ after ⟨works, _, _, otherParent, created⟩
    rw [parent] at otherParent
    cases otherParent
    refine ⟨works, Or.inl ⟨dir, name, parent, ?_, created⟩⟩
    rintro record ⟨_, _, otherLists, finds⟩
    rw [lists] at otherLists
    cases otherLists
    rw [findRecord_eq, finds] at found
    cases found
  | some record =>
    have names : Names store path dir name record := ⟨parent, _, lists, found⟩
    refine .reads (data_robust mounted.loaded record).ne_panic (fun old read => ?_) fun _ _ => stay
    refine .guard stay fun large => ?_
    have overwritten := names.overwrite_eq mounted (old ++ data)
    by_cases valid : validName name = true
    swap
    · exact .of_error (overwritten.trans (if_neg valid)) stay
    refine .of_eq (overwritten.trans (if_pos valid)) ((replace_meets mounted reliable dirData
      short (mem_of_find?_eq_some found) (old ++ data)).mono ?_ ?_)
    · rintro _ _ ⟨works, file, replaced⟩
      refine ⟨works, Or.inr ⟨old, ?_, dir, name, parent, Or.inr ⟨record, names, file, replaced⟩⟩⟩
      rw [Store.readFile_eq, names.resolves, Option.bind_some, read]
      rfl
    · rintro _ _ (rfl | ⟨_, _, _, stuck, _⟩)
      · exact stay
      · exact absurd read (stuck.unreadable mounted reliable)

/-- An operation that deletes fails before it changes anything. -/
theorem delete_meets (path : List Char) :
    (delete path).Meets store (fun _ after => Works start limit store after ∧ ∃ dir record,
          resolve store.listing store.volume.root (components path) = some (dir, record) ∧
          Removed store.volume.toLayout dir record store.view after.view)
      (fun _ after => after = store) := by
  refine .step (check_of_working mounted.working) ?_
  refine .reads (lookupFrom_robust mounted.loaded _ _).ne_panic
    (fun (dir, record) found => ?_) fun _ _ => rfl
  have resolves : resolve store.listing store.volume.root (components path) =
      some (dir, record) := by
    rw [← Store.lookup_toOption, Outcome.toOption_eq_some]
    exact found
  obtain ⟨live, _, _, lists, _, finds⟩ := resolve_spec mounted.live_step .root resolves
  have member := mem_of_find?_eq_some finds
  refine .guard rfl fun readOnly => ?_
  refine .reads (checkEmpty_robust mounted.loaded record).ne_panic
    (fun _ checked => ?_) fun _ _ => rfl
  refine .reads (Volume.chain_safe mounted.loaded _ _) (fun old walked => ?_) fun _ _ => rfl
  obtain ⟨oldLinked, oldShort⟩ := mounted.chain_eq_ok_iff.mp walked
  refine .reads (loadDir_loads mounted.loaded dir).ne_panic
    (fun (dirChain, bytes) loaded => ?_) fun _ _ => rfl
  obtain ⟨dirData, short⟩ := mounted.loadDir_eq_ok_iff.mp loaded
  have inBytes := dirData.recordIn.mp ((mounted.recordIn_of_listing lists).mpr member)
  obtain ⟨_, entry, slot⟩ := mem_records.mp inBytes
  have room := entry_fits (getElem?_entries_eq_some.mp slot.found).1
  simp only [slice?_of_le (show record.offset + 1 ≤ bytes.length by
    rw [slot.offset]; unfold entrySize at *; omega)]
  refine .expect rfl ?_
  refine .require (Nat.le_trans slot.start_le (Nat.le_add_right ..)) ?_
  refine .bind ((storeErased_meets mounted.toReady reliable dirData slot).loosen nofun) ?_
  rintro _ middle ⟨moved, rewritten⟩
  have layout := moved.kept.layout
  have works : Works start limit store middle :=
    ⟨mounted.moved moved (by rw [rewritten.entry]), moved.kept⟩
  have oldMiddle : store.volume.ChainOf middle.view.entry record.cluster old := by
    rw [rewritten.entry]
    exact oldLinked
  refine (free_reliable works.mounted (moved.kept.reliable reliable)
    (by rw [layout]; exact oldMiddle) (by rw [layout]; exact oldShort)).mono ?_ nofun
  rintro _ _ ⟨mountedAfter, kept, released⟩
  exact ⟨works.trans ⟨mountedAfter, kept⟩, dir, record, resolves, middle.view, dirChain,
    bytes, old, dirData, short, inBytes, mounted.empty_of_checkEmpty checked, rewritten, oldMiddle,
    released⟩

end Operations

/-! ### Sound volumes -/

section Sound

variable [CaseMapping] {start limit : Nat} {store after : Store}

theorem Layout.Held.of_zero {view : View} {holder : Holder} (held : layout.Held view 0 holder first)
    (pending : Nat) : first = 0 ∨ layout.Held view pending holder first := by
  cases held with
  | root chained => exact Or.inr (.root chained)
  | record live found => exact Or.inr (.record live found)
  | pending => exact Or.inl rfl

/-- An operation may give up what it holds. -/
theorem Layout.Sound.drop {view : View} (sound : layout.Sound view pending) :
    layout.Sound view 0 := by
  refine ⟨fun holder first held => ?_, ?_⟩
  · rcases held.of_zero pending with rfl | old
    · exact ⟨[], .nil ..⟩
    · exact sound.chained holder first old
  · rintro _ _ _ _ ⟨first, mineHeld, mineLinked⟩ ⟨second, theirHeld, theirLinked⟩
      cluster inMine inTheirs
    rcases mineHeld.of_zero pending with rfl | old
    · rw [mineLinked.eq_nil_iff.mpr rfl] at inMine
      cases inMine
    · rcases theirHeld.of_zero pending with rfl | otherOld
      · rw [theirLinked.eq_nil_iff.mpr rfl] at inTheirs
        cases inTheirs
      · exact sound.apart _ _ _ _ ⟨first, old, mineLinked⟩ ⟨second, otherOld, theirLinked⟩
          cluster inMine inTheirs

theorem Undone.harmless {stranded : Nat → Nat → Prop} (undone : Undone store stranded after)
    (sound : store.volume.Sound store.view 0) :
    Harmless store.volume.toLayout store.view 0 after.view 0 := by
  rcases undone with ⟨_, _, taken, released⟩ |
    ⟨_, _, _, dir, dirChain, bytes, _, _, chain, live, data, room, _, taken, grow, released⟩
  · have harmless := taken.harmless sound
    exact harmless.trans (released.harmless harmless.sound taken.linked)
  · have harmless := taken.harmless sound
    have liveWritten := harmless.same.live_of live
    have grown := grow.harmless harmless.sound liveWritten (taken.dirData data).1
      (data.entrySize_dvd store.shaped) room
    have same := grow.sameChain harmless.sound liveWritten chain taken.linked
    exact harmless.trans (grown.trans (released.harmless grown.sound same.1))

section

variable {before after : View} {data : List UInt8} (placed : layout.Placed start limit)
  (orderly : layout.Sound before 0) (live : layout.Live before dir)
include placed orderly live

theorem Created.sound (created : Created layout dir name data before after) :
    layout.Sound after 0 := by
  obtain ⟨_, _, _, shaped, taken, _, _, _, _, _, _, _, _, _, inserted⟩ := created
  have harmless := taken.harmless orderly
  exact inserted.sound harmless.sound (harmless.same.live_of live) shaped
    ⟨by decide, by decide⟩ (placed.first_lt_modulus taken.linked)
    fun isDir => absurd isDir (by decide)

theorem MadeDir.sound (made : MadeDir layout dir name before after) : layout.Sound after 0 := by
  obtain ⟨written, new, shaped, taken, contents, _, _, _, _, _, _, _, inserted⟩ := made
  have harmless := taken.harmless orderly
  exact inserted.sound harmless.sound (harmless.same.live_of live) shaped
    ⟨by decide, by decide⟩ (placed.first_lt_modulus taken.linked) fun _ =>
      not_recordIn_newDirectory placed.spc_pos taken.linked contents

/-- The old chain of a file is pending when its record points to new data. -/
theorem Swapped.sound (swapped : Swapped layout dir record data before after)
    (file : record.isDir = false) : layout.Sound after record.cluster := by
  obtain ⟨small, _, _, _, _, _, _, _, taken, _, _, dirData, _, slot, rewritten⟩ := swapped
  have harmless := taken.harmless orderly
  exact Rewrites.sound_retarget ⟨harmless.sound, harmless.same.live_of live,
    (taken.dirData dirData).1, rewritten⟩ (records_retargetBytes slot
      (placed.first_lt_modulus taken.linked) (by unfold maxFile at small; omega))
    (mem_records.mpr ⟨_, _, slot⟩) file

theorem Replaced.sound (replaced : Replaced layout dir record data before after)
    (file : record.isDir = false) : layout.Sound after 0 := by
  obtain ⟨_, _, swapped, linked, _, released⟩ := replaced
  exact (released.harmless (swapped.sound placed orderly live file) linked).sound

omit placed in
theorem Removed.sound (removed : Removed layout dir record before after) :
    layout.Sound after 0 := by
  obtain ⟨_, _, _, _, dirData, _, member, _, rewritten, linked, released⟩ := removed
  obtain ⟨_, _, slot⟩ := mem_records.mp member
  exact (released.harmless (Rewrites.sound_remove ⟨orderly, live, dirData, rewritten⟩
    (fun other => (mem_records_erase slot).mp) member) linked).sound

end

end Sound

end Mmurtl.Fat

/-
This file describes the tree of directories of a volume and the chains of clusters it
holds: those of the records of all directories that can be reached, and that of the
root on FAT32.

A volume is sound if these chains exist and share no cluster. An operation may hold one
more chain, that is in no directory yet or no longer; it is said to be pending.
-/

import Mmurtl.Library.Ownership
import Mmurtl.Fat.Updates

namespace Mmurtl.Fat

open Bytes Ownership List

variable {record : Record} {other parent : Dir} {bytes : List UInt8} {first cluster later : Nat}
  {middle : View} {touched : Nat → Prop} {chain : List Nat}

/-! ### Directories that can be reached and the chains they hold -/

/-- Who holds a chain: the root, the record at an offset of a directory, or an operation. -/
inductive Holder where
  | root
  | record (dir : Dir) (offset : Nat)
  | pending
  deriving DecidableEq

section Tree

variable [CaseMapping] (layout : Layout) (view : View)

/-- A record of a directory. -/
def Layout.RecordIn (dir : Dir) (record : Record) : Prop :=
  ∃ chain bytes, layout.DirData view dir chain bytes ∧ record ∈ records bytes layout.kind

/-- The directories that can be reached from the root. -/
inductive Layout.Live : Dir → Prop
  | root : Layout.Live layout.root
  | child {dir : Dir} {record : Record} : Layout.Live dir → layout.RecordIn view dir record →
      record.isDir = true → Layout.Live ⟨record.cluster, false⟩

/-- The holders and the first clusters of what they hold. -/
inductive Layout.Held (pending : Nat) : Holder → Nat → Prop
  | root : layout.fixedRoot layout.root = false → Layout.Held pending .root layout.rootCluster
  | record {dir : Dir} {record : Record} : layout.Live view dir → layout.RecordIn view dir record →
      Layout.Held pending (.record dir record.offset) record.cluster
  | pending : Layout.Held pending .pending pending

/-- The chain of a holder. -/
def Layout.Owns (pending : Nat) (holder : Holder) (chain : List Nat) : Prop :=
  ∃ first, layout.Held view pending holder first ∧ layout.ChainOf view.entry first chain

/-- All chains exist, and no two of them share a cluster. -/
structure Layout.Sound (pending : Nat) : Prop where
  chained : ∀ holder first, layout.Held view pending holder first →
    ∃ chain, layout.ChainOf view.entry first chain
  apart : Apart (layout.Owns view pending)

/-- The holder of a directory that is a chain. -/
inductive Layout.HolderOf : Dir → Holder → Prop
  | root : layout.fixedRoot layout.root = false → Layout.HolderOf layout.root .root
  | child {dir : Dir} {record : Record} : layout.Live view dir → layout.RecordIn view dir record →
      record.isDir = true → Layout.HolderOf ⟨record.cluster, false⟩ (.record dir record.offset)

end Tree

section Holders

variable [CaseMapping] {layout : Layout} {view : View} {dir : Dir} {holder : Holder}
  {pending : Nat}

/-- A record of a directory is determined by its offset. -/
theorem Layout.RecordIn.unique {other : Record} (found : layout.RecordIn view dir record)
    (otherFound : layout.RecordIn view dir other) (same : record.offset = other.offset) :
    record = other := by
  obtain ⟨_, _, data, member⟩ := found
  obtain ⟨_, _, otherData, otherMember⟩ := otherFound
  obtain ⟨_, rfl⟩ := data.unique otherData
  obtain ⟨_, _, slot⟩ := mem_records.mp member
  obtain ⟨_, _, otherSlot⟩ := mem_records.mp otherMember
  exact slot.unique otherSlot same

theorem Layout.DirData.recordIn (data : layout.DirData view dir chain bytes) :
    layout.RecordIn view dir record ↔ record ∈ records bytes layout.kind := by
  constructor
  · rintro ⟨_, _, otherData, member⟩
    obtain ⟨_, rfl⟩ := data.unique otherData
    exact member
  · exact fun member => ⟨chain, bytes, data, member⟩

theorem Layout.Held.unique {second : Nat} (held : layout.Held view pending holder first)
    (other : layout.Held view pending holder second) : first = second := by
  cases held with
  | root => cases other; rfl
  | pending => cases other; rfl
  | @record dir record _ found =>
    generalize name : Holder.record dir record.offset = holder at other
    cases other with
    | root => cases name
    | pending => cases name
    | @record otherDir otherRecord _ otherFound =>
      injection name with dirs offsets
      subst dirs
      rw [found.unique otherFound offsets]

/-- What a record holds. -/
theorem Layout.Held.recordIn {offset : Nat}
    (held : layout.Held view pending (.record dir offset) first) :
    ∃ record, layout.RecordIn view dir record ∧ record.offset = offset ∧
      first = record.cluster := by
  cases held with
  | record _ found => exact ⟨_, found, rfl, rfl⟩

/-- A directory that is a chain has a holder. -/
theorem Layout.Live.holderOf (live : layout.Live view dir)
    (chained : layout.fixedRoot dir = false) : ∃ holder, layout.HolderOf view dir holder := by
  cases live with
  | root => exact ⟨.root, .root chained⟩
  | @child parent record above found isDir => exact ⟨_, .child above found isDir⟩

section

variable (holderOf : layout.HolderOf view dir holder)
include holderOf

theorem Layout.HolderOf.held (pending : Nat) : layout.Held view pending holder dir.cluster := by
  cases holderOf with
  | root chained => exact .root chained
  | child live found _ => exact .record live found

theorem Layout.HolderOf.ne_pending : holder ≠ .pending := by
  cases holderOf with
  | root => exact nofun
  | child => exact nofun

/-- A holder is the holder of one directory. -/
theorem Layout.HolderOf.unique (otherOf : layout.HolderOf view other holder) : dir = other := by
  cases holderOf with
  | root => cases otherOf; rfl
  | @child parent record _ found isDir =>
    generalize name : Holder.record parent record.offset = holder at otherOf
    cases otherOf with
    | root => cases name
    | @child otherParent otherRecord _ otherFound =>
      injection name with dirs offsets
      subst dirs
      rw [found.unique otherFound offsets]

/-- The record of a file is not the holder of a directory. -/
theorem Layout.HolderOf.ne_file (found : layout.RecordIn view parent record)
    (file : record.isDir = false) : holder ≠ .record parent record.offset := by
  cases holderOf with
  | root => exact nofun
  | @child other otherRecord _ otherFound isDir =>
    intro name
    injection name with dirs offsets
    subst dirs
    rw [otherFound.unique found offsets, file] at isDir
    cases isDir

end

section

variable (sound : layout.Sound view pending) (live : layout.Live view dir)
include sound live

/-- A directory of a sound volume has contents, unless it is a record without a cluster. -/
theorem Layout.Sound.dirData : (∃ chain bytes, layout.DirData view dir chain bytes) ∨
      layout.fixedRoot dir = false ∧ dir.cluster = 0 := by
  by_cases fixed : layout.fixedRoot dir = true
  · exact Or.inl ⟨_, _, .of_fixed fixed⟩
  have chained := Bool.eq_false_iff.mpr fixed
  obtain ⟨_, holderOf⟩ := live.holderOf chained
  obtain ⟨chain, linked⟩ := sound.chained _ _ (holderOf.held pending)
  by_cases empty : chain = []
  · exact Or.inr ⟨chained, linked.eq_nil_iff.mp empty⟩
  · exact Or.inl ⟨_, _, .of_chainOf chained linked empty⟩

/-- The chains of two directories are apart. -/
theorem Layout.Sound.apart_dirs {otherChain : List Nat} {otherBytes : List UInt8}
    (otherLive : layout.Live view other) (data : layout.DirData view dir chain bytes)
    (otherData : layout.DirData view other otherChain otherBytes) (different : dir ≠ other)
    (member : cluster ∈ chain) : cluster ∉ otherChain := by
  intro shared
  have chained : layout.fixedRoot dir = false := data.chained_of_mem member
  have otherChained : layout.fixedRoot other = false := otherData.chained_of_mem shared
  obtain ⟨_, holderOf⟩ := live.holderOf chained
  obtain ⟨_, otherOf⟩ := otherLive.holderOf otherChained
  have same := sound.apart _ _ _ _ ⟨_, holderOf.held pending, (data.chainOf chained).2.1⟩
    ⟨_, otherOf.held pending, (otherData.chainOf otherChained).2.1⟩ cluster member shared
  subst same
  exact different (holderOf.unique otherOf)

/-- The chain of a file is apart from that of a directory. -/
theorem Layout.Sound.apart_file {fileChain : List Nat} (data : layout.DirData view dir chain bytes)
    (parentLive : layout.Live view parent) (found : layout.RecordIn view parent record)
    (file : record.isDir = false) (linked : layout.ChainOf view.entry record.cluster fileChain)
    (member : cluster ∈ fileChain) : cluster ∉ chain := by
  intro shared
  have chained : layout.fixedRoot dir = false := data.chained_of_mem shared
  obtain ⟨_, holderOf⟩ := live.holderOf chained
  exact holderOf.ne_file found file (sound.apart _ _ _ _
    ⟨_, holderOf.held pending, (data.chainOf chained).2.1⟩ ⟨_, .record parentLive found, linked⟩
    cluster shared member)

end

end Holders

/-! ### Changes that keep the tree -/

section Same

/-- A chain and the contents of its clusters are as before. -/
def SameChain (layout : Layout) (before after : View) (first : Nat) : Prop :=
  ∀ chain, layout.ChainOf before.entry first chain → layout.ChainOf after.entry first chain ∧
    ∀ cluster ∈ chain, after.data cluster = before.data cluster

theorem SameChain.trans {layout : Layout} {before after : View}
    (left : SameChain layout before middle first) (right : SameChain layout middle after first) :
    SameChain layout before after first := by
  intro chain linked
  obtain ⟨linkedMiddle, data⟩ := left chain linked
  obtain ⟨linkedLast, dataLast⟩ := right chain linkedMiddle
  exact ⟨linkedLast, fun cluster member => (dataLast cluster member).trans (data cluster member)⟩

theorem SameChain.of_agrees {layout : Layout} {before after : View}
    (agrees : before.AgreesOff touched after)
    (away : ∀ chain, layout.ChainOf before.entry first chain → ∀ cluster ∈ chain, ¬touched cluster)
    :
    SameChain layout before after first := fun chain linked =>
  ⟨linked.congr fun cluster member => agrees.entry cluster (away chain linked cluster member),
    fun cluster member => agrees.data cluster (away chain linked cluster member)⟩

variable [CaseMapping]

/-- All directories still have the same records, and all files the same chains and contents. A
directory that the driver reads may have grown. -/
structure SameTree (layout : Layout) (before after : View) : Prop where
  dirs : ∀ dir chain bytes, layout.Live before dir → layout.DirData before dir chain bytes →
    ∃ other grown, layout.DirData after dir other grown ∧
      records grown layout.kind = records bytes layout.kind ∧
      (other = chain ∨ chain.length ≤ maxMetadata / layout.bytes ∧
        other.length ≤ maxMetadata / layout.bytes)
  files : ∀ dir record, layout.Live before dir → layout.RecordIn before dir record →
    record.isDir = false → SameChain layout before after record.cluster

variable {layout : Layout} {before after : View} {pending : Nat} {dir : Dir}

theorem SameTree.refl (layout : Layout) (view : View) : SameTree layout view view :=
  ⟨fun _ chain bytes _ data => ⟨chain, bytes, data, rfl, Or.inl rfl⟩,
    fun _ _ _ _ _ _ linked => ⟨linked, fun _ _ => rfl⟩⟩

theorem SameTree.recordIn_of (same : SameTree layout before after) (live : layout.Live before dir)
    (found : layout.RecordIn before dir record) : layout.RecordIn after dir record := by
  obtain ⟨chain, bytes, data, member⟩ := found
  obtain ⟨other, grown, grownData, records, _⟩ := same.dirs dir chain bytes live data
  exact ⟨other, grown, grownData, records ▸ member⟩

theorem SameTree.live_of (same : SameTree layout before after) (live : layout.Live before dir) :
    layout.Live after dir := by
  induction live with
  | root => exact .root
  | child live found isDir ih =>
    exact .child ih (same.recordIn_of live found) isDir

theorem SameTree.trans (left : SameTree layout before middle)
    (right : SameTree layout middle after) : SameTree layout before after := by
  refine ⟨fun dir chain bytes live data => ?_, fun dir record live found file => ?_⟩
  · obtain ⟨other, grown, grownData, records, limit⟩ := left.dirs dir chain bytes live data
    obtain ⟨last, final, finalData, sameRecords, finalLimit⟩ :=
      right.dirs dir other grown (left.live_of live) grownData
    refine ⟨last, final, finalData, sameRecords.trans records, ?_⟩
    rcases limit with rfl | ⟨small, _⟩
    · exact finalLimit
    · rcases finalLimit with rfl | ⟨_, large⟩
      · exact Or.inr ⟨small, by assumption⟩
      · exact Or.inr ⟨small, large⟩
  · exact (left.files dir record live found file).trans
      (right.files dir record (left.live_of live) (left.recordIn_of live found) file)

section

variable (same : SameTree layout before after) (sound : layout.Sound before pending)
include same sound

/-- No directory gets contents that had none. -/
theorem SameTree.dirData_of (live : layout.Live before dir)
    (data : layout.DirData after dir chain bytes) :
    ∃ old oldBytes, layout.DirData before dir old oldBytes ∧
      records bytes layout.kind = records oldBytes layout.kind := by
  rcases sound.dirData live with ⟨old, oldBytes, oldData⟩ | ⟨chained, none⟩
  · obtain ⟨_, _, grownData, records, _⟩ := same.dirs dir old oldBytes live oldData
    obtain ⟨_, rfl⟩ := data.unique grownData
    exact ⟨old, oldBytes, oldData, records⟩
  · exact absurd none (data.cluster_ne_zero chained)

theorem SameTree.recordIn_iff (live : layout.Live before dir) :
    layout.RecordIn after dir record ↔ layout.RecordIn before dir record := by
  refine ⟨?_, same.recordIn_of live⟩
  rintro ⟨_, _, data, member⟩
  obtain ⟨old, oldBytes, oldData, records⟩ := same.dirData_of sound live data
  exact ⟨old, oldBytes, oldData, records ▸ member⟩

theorem SameTree.live_iff : layout.Live after dir ↔ layout.Live before dir := by
  refine ⟨fun live => ?_, same.live_of⟩
  induction live with
  | root => exact .root
  | child _ found isDir ih =>
    exact .child ih ((same.recordIn_iff sound ih).mp found) isDir

theorem SameTree.held_iff {holder : Holder} (fixed : holder ≠ .pending) :
    layout.Held after later holder first ↔ layout.Held before pending holder first := by
  constructor
  · intro held
    cases held with
    | root chained => exact .root chained
    | record live found =>
      have liveBefore := (same.live_iff sound).mp live
      exact .record liveBefore ((same.recordIn_iff sound liveBefore).mp found)
    | pending => exact absurd rfl fixed
  · intro held
    cases held with
    | root chained => exact .root chained
    | record live found => exact .record (same.live_of live) (same.recordIn_of live found)
    | pending => exact absurd rfl fixed

end

end Same

/-! ### Chains that are taken and released -/

section Chains

variable [CaseMapping]

/-- A cluster that is not free and that nobody holds. -/
def Layout.Stray (layout : Layout) (view : View) (pending cluster : Nat) : Prop :=
  layout.valid cluster = true ∧ view.entry cluster ≠ 0 ∧
    ∀ holder chain, layout.Owns view pending holder chain → cluster ∉ chain

/-- A change that keeps the tree, leaves the volume sound and loses no cluster. -/
structure Harmless (layout : Layout) (before : View) (pending : Nat) (after : View)
    (later : Nat) : Prop where
  same : SameTree layout before after
  sound : layout.Sound after later
  strays : ∀ cluster, layout.Stray after later cluster → layout.Stray before pending cluster

variable {layout : Layout} {before after : View} {pending : Nat} {dir : Dir}

theorem Harmless.refl (sound : layout.Sound before pending) :
    Harmless layout before pending before pending :=
  ⟨.refl .., sound, fun _ stray => stray⟩

theorem Harmless.trans {between : Nat} (left : Harmless layout before pending middle between)
    (right : Harmless layout middle between after later) :
    Harmless layout before pending after later :=
  ⟨left.same.trans right.same, right.sound,
    fun cluster stray => left.strays cluster (right.strays cluster stray)⟩

theorem Layout.Owns.used {holder : Holder} (owns : layout.Owns before pending holder chain) :
    ∀ cluster ∈ chain, ¬before.entry cluster = 0 := by
  obtain ⟨_, _, linked⟩ := owns
  exact fun cluster member => linked.entry_ne_zero member

/-- A volume stays sound if the tree is kept and all chains are, except that one of them may get
free clusters. -/
theorem Layout.Sound.of_sameTree (sound : layout.Sound before pending)
    (same : SameTree layout before after) (fresh : Holder)
    (chains : ∀ holder first chain, holder ≠ .pending → layout.Held before pending holder first →
      layout.ChainOf before.entry first chain → ∃ other, layout.ChainOf after.entry first other ∧
      ∀ cluster ∈ other, cluster ∈ chain ∨ before.entry cluster = 0 ∧ holder = fresh)
    (kept : ∃ old chain, layout.ChainOf before.entry pending old ∧
      layout.ChainOf after.entry later chain ∧
      ∀ cluster ∈ chain, cluster ∈ old ∨ before.entry cluster = 0 ∧ .pending = fresh) :
    layout.Sound after later := by
  obtain ⟨old, pendingChain, oldLinked, pendingLinked, pendingMembers⟩ := kept
  refine ⟨fun holder first held => ?_,
    sound.apart.transfer (fun _ _ => Layout.Owns.used) id fresh ?_
    fun _ _ same => same⟩
  · by_cases isPending : holder = .pending
    · subst isPending
      cases held
      exact ⟨pendingChain, pendingLinked⟩
    · have heldBefore := (same.held_iff sound isPending).mp held
      obtain ⟨chain, linked⟩ := sound.chained holder first heldBefore
      obtain ⟨other, otherLinked, _⟩ := chains holder first chain isPending heldBefore linked
      exact ⟨other, otherLinked⟩
  · rintro holder _ ⟨first, held, mineLinked⟩ cluster member
    by_cases isPending : holder = .pending
    · subst isPending
      cases held
      rw [mineLinked.unique pendingLinked] at member
      exact (pendingMembers cluster member).imp_left fun inOld =>
        ⟨old, ⟨_, .pending, oldLinked⟩, inOld⟩
    · have heldBefore := (same.held_iff sound isPending).mp held
      obtain ⟨chain, linked⟩ := sound.chained holder first heldBefore
      obtain ⟨_, otherLinked, members⟩ := chains holder first chain isPending heldBefore linked
      rw [mineLinked.unique otherLinked] at member
      exact (members cluster member).imp_left fun inChain =>
        ⟨chain, ⟨_, heldBefore, linked⟩, inChain⟩

/-- The tree is kept if nothing it holds is touched. -/
theorem sameTree_of_agrees (agrees : before.AgreesOff touched after)
    (away : ∀ holder chain, holder ≠ .pending → layout.Owns before pending holder chain →
      ∀ cluster ∈ chain, ¬touched cluster) : SameTree layout before after := by
  refine ⟨fun dir chain bytes live data => ?_, fun dir record live found file => ?_⟩
  · refine ⟨chain, bytes, data.of_agrees agrees fun cluster member => ?_, rfl, Or.inl rfl⟩
    by_cases fixed : layout.fixedRoot dir = true
    · rw [(data.fixed fixed).1] at member
      cases member
    · have chained := Bool.eq_false_iff.mpr fixed
      obtain ⟨holder, holderOf⟩ := live.holderOf chained
      exact away holder chain holderOf.ne_pending
        ⟨_, holderOf.held pending, (data.chainOf chained).2.1⟩ cluster member
  · exact .of_agrees agrees fun chain linked =>
      away (.record dir record.offset) chain nofun ⟨_, .record live found, linked⟩

/-- Taking free clusters for a pending chain. -/
theorem Taken.harmless (taken : Taken layout before after chain) (sound : layout.Sound before 0) :
    Harmless layout before 0 after (chain.head?.getD 0) := by
  have same : SameTree layout before after :=
    sameTree_of_agrees (taken.agrees.mono fun cluster member => taken.free cluster member)
      fun _ _ _ (owns : layout.Owns before 0 _ _) => owns.used
  have away : ∀ {other : List Nat} {first : Nat}, layout.ChainOf before.entry first other →
      layout.ChainOf after.entry first other := fun linked =>
    linked.congr fun cluster member => taken.agrees.entry cluster fun inChain =>
      linked.entry_ne_zero member (taken.free cluster inChain)
  refine ⟨same, sound.of_sameTree same .pending
    (fun holder first other _ _ linked => ⟨other, away linked, fun _ => Or.inl⟩)
    ⟨[], chain, .nil .., taken.linked, fun cluster member =>
      Or.inr ⟨taken.free cluster member, rfl⟩⟩,
    ?_⟩
  rintro cluster ⟨valid, used, unheld⟩
  have outside : cluster ∉ chain := unheld .pending chain ⟨_, .pending, taken.linked⟩
  refine ⟨valid, taken.agrees.entry cluster outside ▸ used, ?_⟩
  rintro holder other ⟨first, held, linked⟩
  by_cases isPending : holder = .pending
  · subst isPending
    cases held
    rw [linked.eq_nil_iff.mpr rfl]
    exact not_mem_nil
  · exact unheld holder other ⟨first, (same.held_iff sound isPending).mpr held, away linked⟩

/-- Releasing a pending chain. -/
theorem Released.harmless (released : Released before after chain)
    (sound : layout.Sound before pending) (linked : layout.ChainOf before.entry pending chain) :
    Harmless layout before pending after 0 := by
  have apart : ∀ holder other, holder ≠ .pending → layout.Owns before pending holder other →
      ∀ cluster ∈ other, cluster ∉ chain := by
    intro holder other fixed owns cluster member shared
    exact fixed (sound.apart _ _ _ _ owns ⟨_, .pending, linked⟩ cluster member shared)
  have same : SameTree layout before after := sameTree_of_agrees released.agrees apart
  have away : ∀ holder first other, holder ≠ .pending → layout.Held before pending holder first →
      layout.ChainOf before.entry first other → layout.ChainOf after.entry first other :=
    fun holder first other fixed held otherLinked => otherLinked.congr fun cluster member =>
      released.agrees.entry cluster
        (apart holder other fixed ⟨first, held, otherLinked⟩ cluster member)
  refine ⟨same, sound.of_sameTree same .pending (fun holder first other fixed held otherLinked =>
      ⟨other, away holder first other fixed held otherLinked, fun _ => Or.inl⟩)
    ⟨chain, [], linked, .nil .., forall_mem_nil _⟩, ?_⟩
  rintro cluster ⟨valid, used, unheld⟩
  have outside : cluster ∉ chain := fun member => used (released.free cluster member)
  refine ⟨valid, released.agrees.entry cluster outside ▸ used, ?_⟩
  rintro holder other ⟨first, held, otherLinked⟩
  by_cases isPending : holder = .pending
  · subst isPending
    cases held
    rw [otherLinked.unique linked]
    exact outside
  · exact unheld holder other ⟨first, (same.held_iff sound isPending).mpr held,
      away holder first other isPending held otherLinked⟩

end Chains

/-! ### Directories that grow -/

section Growing

variable [CaseMapping] {layout : Layout} {before after : View} {pending : Nat} {dir : Dir}
  {chain : List Nat} {new : Nat}

/-- Zeros behind a directory add no records. -/
theorem records_append_zeros (aligned : entrySize ∣ bytes.length) (count : Nat) (kind : Kind) :
    records (bytes ++ List.replicate count 0) kind = records bytes kind := by
  rw [records, entries_append aligned, readRecords_append_finish, records]
  intro _ member
  obtain ⟨_, found⟩ := mem_iff_getElem?.mp member
  rw [mark_eq_finish, field_of_entry found (by decide), getElem?_replicate]
  split <;> rfl

omit [CaseMapping] in
/-- Where a step of growth changes anything. -/
theorem GrowStep.agrees (grow : GrowStep layout dir chain new before after) :
    before.AgreesOff (fun cluster => cluster = new ∨ cluster ∈ chain) after := by
  refine ⟨fun cluster away => grow.entry cluster (fun here => away (Or.inl here)) fun last => ?_,
    fun cluster away => grow.data cluster fun here => away (Or.inl here), grow.root⟩
  exact away (Or.inr (mem_of_getLast? last))

section

variable (grow : GrowStep layout dir chain new before after) (sound : layout.Sound before pending)
  (live : layout.Live before dir)
include grow sound live

theorem GrowStep.sameTree (data : layout.DirData before dir chain bytes)
    (aligned : entrySize ∣ bytes.length) (limit : chain.length + 1 ≤ maxMetadata / layout.bytes) :
    SameTree layout before after := by
  refine ⟨fun other otherChain otherBytes otherLive otherData => ?_,
    fun parent record parentLive found file => .of_agrees grow.agrees fun fileChain linked => ?_⟩
  · by_cases here : other = dir
    · subst here
      obtain ⟨rfl, rfl⟩ := otherData.unique data
      exact ⟨_, _, grow.dirData data, records_append_zeros aligned .., Or.inr ⟨by omega, by
        rw [length_append]; exact limit⟩⟩
    · refine ⟨otherChain, otherBytes, otherData.of_agrees grow.agrees ?_, rfl, Or.inl rfl⟩
      rintro _ member (rfl | shared)
      · have chained : layout.fixedRoot other = false := otherData.chained_of_mem member
        exact (otherData.chainOf chained).2.1.entry_ne_zero member grow.free
      · exact sound.apart_dirs otherLive live otherData data here member shared
  · rintro _ member (rfl | shared)
    · exact linked.entry_ne_zero member grow.free
    · exact sound.apart_file live data parentLive found file linked member shared

/-- A pending chain is not affected by the growth of a directory. -/
theorem GrowStep.sameChain : SameChain layout before after pending := by
  refine .of_agrees grow.agrees fun pendingChain linked => ?_
  rintro cluster member (rfl | shared)
  · exact linked.entry_ne_zero member grow.free
  · obtain ⟨_, holderOf⟩ := live.holderOf grow.chained
    exact holderOf.ne_pending (sound.apart _ _ _ _ ⟨_, holderOf.held pending, grow.linked⟩
      ⟨_, .pending, linked⟩ cluster shared member)

theorem GrowStep.harmless (data : layout.DirData before dir chain bytes)
    (aligned : entrySize ∣ bytes.length) (limit : chain.length + 1 ≤ maxMetadata / layout.bytes) :
    Harmless layout before pending after pending := by
  have same := grow.sameTree sound live data aligned limit
  obtain ⟨dirHolder, holderOf⟩ := live.holderOf grow.chained
  have dirOwns : layout.Owns before pending dirHolder chain :=
    ⟨_, holderOf.held pending, grow.linked⟩
  have away : ∀ holder first other, holder ≠ dirHolder → layout.Held before pending holder first →
      layout.ChainOf before.entry first other → layout.ChainOf after.entry first other := by
    intro holder first other different held linked
    refine linked.congr fun cluster member => grow.agrees.entry cluster ?_
    rintro (rfl | shared)
    · exact linked.entry_ne_zero member grow.free
    · exact different (sound.apart _ _ _ _ ⟨first, held, linked⟩ dirOwns cluster member shared)
  refine ⟨same, sound.of_sameTree same dirHolder (fun holder first other _ held linked => ?_)
    ?_, ?_⟩
  · by_cases here : holder = dirHolder
    · subst here
      obtain rfl := held.unique (holderOf.held pending)
      obtain rfl := linked.unique grow.linked
      exact ⟨_, grow.extended, forall_mem_append.mpr ⟨fun _ => Or.inl,
        forall_mem_singleton.mpr (Or.inr ⟨grow.free, rfl⟩)⟩⟩
    · exact ⟨other, away holder first other here held linked, fun _ => Or.inl⟩
  · obtain ⟨old, linked⟩ := sound.chained _ _ .pending
    exact ⟨old, old, linked, away _ _ old holderOf.ne_pending.symm .pending linked, fun _ => Or.inl⟩
  · rintro cluster ⟨valid, used, unheld⟩
    have heldAfter : layout.Held after pending dirHolder dir.cluster :=
      (same.held_iff sound holderOf.ne_pending).mpr (holderOf.held pending)
    have outside := unheld dirHolder _ ⟨_, heldAfter, grow.extended⟩
    rw [mem_append, mem_singleton, not_or] at outside
    have entry := grow.agrees.entry cluster fun touched => touched.elim outside.2 outside.1
    refine ⟨valid, entry ▸ used, ?_⟩
    rintro holder other ⟨first, held, linked⟩
    by_cases here : holder = dirHolder
    · subst here
      obtain rfl := held.unique (holderOf.held pending)
      rw [linked.unique grow.linked]
      exact outside.1
    · refine unheld holder other ⟨first, ?_, away holder first other here held linked⟩
      by_cases isPending : holder = .pending
      · subst isPending
        cases held
        exact .pending
      · exact (same.held_iff sound isPending).mpr held

end

omit [CaseMapping] in
theorem Grows.length_le {first last : View} {other : List Nat}
    (grows : Grows layout dir first chain last other) : chain.length ≤ other.length := by
  induction grows with
  | refl => exact Nat.le_refl _
  | step _ _ ih =>
    rw [length_append] at ih
    omega

/-- A directory that grows changes neither the tree nor a pending chain. -/
theorem Grows.harmless {other : List Nat} (grows : Grows layout dir before chain after other)
    (sound : layout.Sound before pending) (live : layout.Live before dir)
    (data : layout.DirData before dir chain bytes) (aligned : entrySize ∣ bytes.length)
    (limit : other.length ≤ maxMetadata / layout.bytes) :
    Harmless layout before pending after pending ∧ SameChain layout before after pending := by
  induction grows generalizing bytes with
  | refl => exact ⟨.refl sound, fun _ linked => ⟨linked, fun _ _ => rfl⟩⟩
  | step grow rest ih =>
    have lengths := rest.length_le
    rw [length_append, length_singleton] at lengths
    have first := grow.harmless sound live data aligned (by omega)
    have alignedGrown : entrySize ∣ (bytes ++ List.replicate layout.bytes 0).length := by
      rw [length_append, length_replicate]
      exact Nat.dvd_add aligned layout.entrySize_dvd_bytes
    obtain ⟨harmless, same⟩ := ih first.sound (first.same.live_of live)
      (grow.dirData data) alignedGrown limit
    exact ⟨first.trans harmless, (grow.sameChain sound live).trans same⟩

end Growing

end Mmurtl.Fat

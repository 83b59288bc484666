/-
This file proves that a sound volume stays sound where a directory is rewritten with a
record added, changed or removed: each chain still has one holder.
-/

import Mmurtl.Fat.Tree

namespace Mmurtl.Fat

open Bytes Ownership

variable {later : Nat} {target : Record}

/-! ### Directories that are rewritten -/

section Rewriting

variable [CaseMapping] {layout : Layout} {before after : View} {pending : Nat} {dir : Dir}
  {chain : List Nat} {bytes new : List UInt8}

theorem Layout.Live.eq_root (live : layout.Live before dir) (fixed : layout.fixedRoot dir = true) :
    dir = layout.root := by
  cases live with
  | root => rfl
  | child => cases fixed

/-- A directory that is rewritten, in a sound volume. -/
structure Rewrites (layout : Layout) (dir : Dir) (chain : List Nat) (bytes new : List UInt8)
    (before : View) (pending : Nat) (after : View) : Prop where
  sound : layout.Sound before pending
  live : layout.Live before dir
  data : layout.DirData before dir chain bytes
  rewritten : Rewritten layout dir chain new before after

namespace Rewrites

variable (rewrites : Rewrites layout dir chain bytes new before pending after)

include rewrites

variable {other : Dir}

/-- Other directories keep their contents. -/
theorem dirData (live : layout.Live before other) (different : other ≠ dir) {otherChain : List Nat}
    {otherBytes : List UInt8} (data : layout.DirData before other otherChain otherBytes) :
    layout.DirData after other otherChain otherBytes := by
  by_cases fixed : layout.fixedRoot other = true
  · have chained : layout.fixedRoot dir = false := by
      by_contra fixedDir
      exact different ((live.eq_root fixed).trans
        (rewrites.live.eq_root (Bool.not_eq_false _ ▸ fixedDir)).symm)
    obtain ⟨rfl, rfl⟩ := data.fixed fixed
    rw [← rewrites.rewritten.root chained]
    exact .of_fixed fixed
  · have chained := Bool.eq_false_iff.mpr fixed
    obtain ⟨nonempty, linked, rfl⟩ := data.chainOf chained
    have same : otherChain.flatMap before.data = otherChain.flatMap after.data :=
      List.flatMap_congr fun cluster member =>
        (rewrites.rewritten.data cluster
          (rewrites.sound.apart_dirs live rewrites.live data rewrites.data different member)).symm
    rw [same]
    exact .of_chainOf chained (by rw [rewrites.rewritten.entry]; exact linked) nonempty

/-- Other directories keep their records. -/
theorem recordIn_iff (live : layout.Live before other) (different : other ≠ dir) {record : Record} :
    layout.RecordIn after other record ↔ layout.RecordIn before other record := by
  constructor
  · rintro ⟨otherChain, otherBytes, data, member⟩
    rcases rewrites.sound.dirData live with ⟨old, _, oldData⟩ | ⟨chained, none⟩
    · obtain ⟨_, rfl⟩ := data.unique (rewrites.dirData live different oldData)
      exact ⟨old, _, oldData, member⟩
    · exact absurd none (data.cluster_ne_zero chained)
  · rintro ⟨otherChain, otherBytes, data, member⟩
    exact ⟨otherChain, otherBytes, rewrites.dirData live different data, member⟩

/-- A pending chain keeps its contents. -/
theorem pending_sameChain : SameChain layout before after pending := by
  intro _ linked
  rw [rewrites.rewritten.entry]
  refine ⟨linked, fun cluster member => rewrites.rewritten.data cluster fun shared => ?_⟩
  have chained : layout.fixedRoot dir = false := rewrites.data.chained_of_mem shared
  obtain ⟨_, holderOf⟩ := rewrites.live.holderOf chained
  exact holderOf.ne_pending (rewrites.sound.apart _ _ _ _
    ⟨_, holderOf.held pending, (rewrites.data.chainOf chained).2.1⟩ ⟨_, .pending, linked⟩
    cluster shared member)

/-- A pending directory without records has none afterwards. -/
theorem not_recordIn_pending (empty : ∀ record, ¬layout.RecordIn before ⟨pending, false⟩ record)
    (record : Record) : ¬layout.RecordIn after ⟨pending, false⟩ record := by
  rintro ⟨newChain, _, data, found⟩
  obtain ⟨nonempty, linked, rfl⟩ := data.chainOf rfl
  rw [rewrites.rewritten.entry] at linked
  have same := (rewrites.pending_sameChain newChain linked).2
  have contents : newChain.flatMap after.data = newChain.flatMap before.data :=
    List.flatMap_congr same
  rw [contents] at found
  exact empty record ⟨newChain, _, .of_chainOf rfl linked nonempty, found⟩

section

variable (extra : Dir → Prop)
  (inside : ∀ record, layout.RecordIn after dir record → record.isDir = true →
    layout.RecordIn before dir record ∨ extra ⟨record.cluster, false⟩)
  (empty : ∀ other record, extra other → ¬layout.RecordIn after other record)
include extra inside empty

/-- Directories that can be reached afterwards could be reached before, or are new. -/
theorem live_of (live : layout.Live after other) : layout.Live before other ∨ extra other := by
  induction live with
  | root => exact Or.inl .root
  | @child parent record _ found isDir ih =>
    rcases ih with liveBefore | isExtra
    · by_cases here : parent = dir
      · subst here
        exact (inside record found isDir).imp_left fun old => .child liveBefore old isDir
      · exact Or.inl (.child liveBefore ((rewrites.recordIn_iff liveBefore here).mp found) isDir)
    · exact absurd found (empty parent record isExtra)

/-- Holders afterwards. -/
theorem held_of {first : Nat} {holder : Holder} (held : layout.Held after later holder first) :
    layout.Held before pending holder first ∧ holder ≠ .pending ∨
      (∃ record, layout.RecordIn after dir record ∧ holder = .record dir record.offset ∧
        first = record.cluster) ∨ holder = .pending ∧ first = later := by
  cases held with
  | root chained => exact Or.inl ⟨.root chained, nofun⟩
  | pending => exact Or.inr (Or.inr ⟨rfl, rfl⟩)
  | @record parent record live found =>
    rcases rewrites.live_of extra inside empty live with liveBefore | isExtra
    · by_cases here : parent = dir
      · subst here
        exact Or.inr (Or.inl ⟨record, found, rfl, rfl⟩)
      · exact Or.inl ⟨.record liveBefore ((rewrites.recordIn_iff liveBefore here).mp found), nofun⟩
    · exact absurd found (empty parent record isExtra)

/-- A volume stays sound if the chains of a record and of an operation are exchanged. -/
theorem sound_exchange (offset : Nat)
    (taken : ∀ record, layout.RecordIn after dir record → record.offset = offset →
      record.cluster = pending)
    (others : ∀ record, layout.RecordIn after dir record → record.offset ≠ offset →
      layout.RecordIn before dir record)
    (given : later = 0 ∨ layout.Held before pending (.record dir offset) later) :
    layout.Sound after later := by
  have entry := rewrites.rewritten.entry
  have sound := rewrites.sound
  have back : ∀ holder first, layout.Held after later holder first → first = 0 ∨
      layout.Held before pending (Equiv.swap (.record dir offset) .pending holder) first := by
    intro holder first heldAfter
    by_cases here : holder = .record dir offset
    · subst here
      obtain ⟨record, found, same, rfl⟩ := heldAfter.recordIn
      rw [Equiv.swap_apply_left, taken record found same]
      exact Or.inr .pending
    rcases rewrites.held_of extra inside empty heldAfter with
      ⟨old, fixed⟩ | ⟨record, found, rfl, rfl⟩ | ⟨rfl, rfl⟩
    · rw [Equiv.swap_apply_of_ne_of_ne here fixed]
      exact Or.inr old
    · have fixed : Holder.record dir record.offset ≠ .pending := nofun
      rw [Equiv.swap_apply_of_ne_of_ne here fixed]
      exact Or.inr (.record rewrites.live (others record found fun same => here (congrArg _ same)))
    · rw [Equiv.swap_apply_right]
      exact given
  refine ⟨fun holder first heldAfter => ?_, sound.apart.transfer (fun _ _ => Layout.Owns.used)
    (Equiv.swap (.record dir offset) .pending) .pending ?_ (Equiv.injective _)⟩
  · rw [entry]
    rcases back holder first heldAfter with rfl | heldBefore
    · exact ⟨[], .nil ..⟩
    · exact sound.chained _ _ heldBefore
  · rintro holder mine ⟨first, heldAfter, linked⟩ _ member
    rw [entry] at linked
    rcases back holder first heldAfter with rfl | heldBefore
    · rw [linked.eq_nil_iff.mpr rfl] at member
      cases member
    · exact Or.inl ⟨mine, ⟨first, heldBefore, linked⟩, member⟩

end

end Rewrites

end Rewriting

/-! ### Records that are added, changed and removed -/

section Records

variable [CaseMapping] {layout : Layout} {before after : View} {pending : Nat} {dir : Dir}
  {chain : List Nat} {bytes : List UInt8}

/-- A record without contents of its own takes over a pending chain. -/
theorem Rewrites.sound_insert {new : List UInt8} {added : Record}
    (rewrites : Rewrites layout dir chain bytes new before pending after)
    (members : ∀ record, record ∈ records new layout.kind →
      record ∈ records bytes layout.kind ∨ record = added)
    (member : added ∈ records new layout.kind) (cluster : added.cluster = pending)
    (empty : added.isDir = true → ∀ record, ¬layout.RecordIn before ⟨added.cluster, false⟩ record) :
    layout.Sound after 0 := by
  have dataAfter := rewrites.rewritten.dirData
  have here : layout.RecordIn after dir added := dataAfter.recordIn.mpr member
  have inside : ∀ record, layout.RecordIn after dir record →
      layout.RecordIn before dir record ∨ record = added := fun record found =>
    (members record (dataAfter.recordIn.mp found)).imp_left rewrites.data.recordIn.mpr
  have noRecords : added.isDir = true →
      ∀ record, ¬layout.RecordIn after ⟨added.cluster, false⟩ record := by
    rw [cluster] at empty ⊢
    exact fun isDir => rewrites.not_recordIn_pending (empty isDir)
  refine rewrites.sound_exchange
    (fun other => added.isDir = true ∧ other = ⟨added.cluster, false⟩) ?_ ?_ added.offset
    (fun record found offset => ?_) (fun record found different => ?_) (Or.inl rfl)
  · intro record found isDir
    refine (inside record found).imp_right fun same => ?_
    subst same
    exact ⟨isDir, rfl⟩
  · rintro _ record ⟨isDir, rfl⟩
    exact noRecords isDir record
  · rw [found.unique here offset, cluster]
  · exact (inside record found).resolve_right fun same => different (congrArg _ same)

/-- The chain of the record of a file and a pending chain are exchanged. -/
theorem Rewrites.sound_retarget {new : List UInt8} {size : Nat}
    (rewrites : Rewrites layout dir chain bytes new before pending after)
    (retargeted : records new layout.kind =
      (records bytes layout.kind).map (Record.retarget target.offset pending size))
    (member : target ∈ records bytes layout.kind) (file : target.isDir = false) :
    layout.Sound after target.cluster := by
  have dataAfter := rewrites.rewritten.dirData
  have there : layout.RecordIn before dir target := rewrites.data.recordIn.mpr member
  have inside : ∀ record, layout.RecordIn after dir record →
      layout.RecordIn before dir record ∧ record.offset ≠ target.offset ∨
        record.offset = target.offset ∧ record.cluster = pending ∧ record.isDir = false := by
    intro record found
    have listed := dataAfter.recordIn.mp found
    rw [retargeted, List.mem_map] at listed
    obtain ⟨old, oldMember, rfl⟩ := listed
    have oldIn := rewrites.data.recordIn.mpr oldMember
    rw [Record.retarget]
    split
    · rename_i same
      refine Or.inr ⟨same, rfl, ?_⟩
      rw [← file, ← oldIn.unique there same]
      rfl
    · rename_i different
      exact Or.inl ⟨oldIn, different⟩
  refine rewrites.sound_exchange (fun _ => False) (fun record found isDir => ?_)
    (fun _ _ impossible => impossible.elim) target.offset (fun record found offset => ?_)
    (fun record found different => ?_) (Or.inr (.record rewrites.live there))
  · rcases inside record found with ⟨old, _⟩ | ⟨_, _, notDir⟩
    · exact Or.inl old
    · rw [notDir] at isDir
      cases isDir
  · rcases inside record found with ⟨_, different⟩ | ⟨_, cluster, _⟩
    · exact absurd offset different
    · exact cluster
  · exact ((inside record found).resolve_right fun same => different same.1).1

/-- The chain of a record that is removed is pending afterwards. -/
theorem Rewrites.sound_remove {new : List UInt8}
    (rewrites : Rewrites layout dir chain bytes new before 0 after)
    (members : ∀ record, record ∈ records new layout.kind →
      record ∈ records bytes layout.kind ∧ record.offset ≠ target.offset)
    (member : target ∈ records bytes layout.kind) : layout.Sound after target.cluster := by
  have dataAfter := rewrites.rewritten.dirData
  have there : layout.RecordIn before dir target := rewrites.data.recordIn.mpr member
  have inside : ∀ record, layout.RecordIn after dir record →
      layout.RecordIn before dir record ∧ record.offset ≠ target.offset := fun record found =>
    (members record (dataAfter.recordIn.mp found)).imp_left rewrites.data.recordIn.mpr
  exact rewrites.sound_exchange (fun _ => False)
    (fun record found _ => Or.inl (inside record found).1) (fun _ _ impossible => impossible.elim)
    target.offset (fun record found offset => absurd offset (inside record found).2)
    (fun record found _ => (inside record found).1) (Or.inr (.record rewrites.live there))

end Records

/-! ### Adding a record -/

section Inserting

variable [CaseMapping] {layout : Layout} {before middle after : View} {dir : Dir}
  {name : List Char} {cluster size count place : Nat} {attr : UInt8} {chain other : List Nat}
  {bytes short : List UInt8}

/-- The attributes of the records that the driver makes. -/
def Plain (attr : UInt8) : Prop := attr ≠ 0x0f ∧ attr &&& 8 = 0

/-- The record of the entries that were added. -/
def Inserted.record (_ : Inserted layout dir name cluster size attr before middle after chain other
    bytes short count place) : Record :=
  addedRecord (placedBytes (bytes ++ List.replicate count 0) (place * entrySize)
    (entrySet name short cluster size attr layout.kind)) (place + longCount name short)
    (shortEntry short cluster size attr layout.kind) layout.kind

namespace Inserted

variable (inserted : Inserted layout dir name cluster size attr before middle after chain other
  bytes short count place)

theorem mem_records (plain : Plain attr) (shaped : before.Shaped layout) {record : Record} :
    record ∈ records (placedBytes (bytes ++ List.replicate count 0) (place * entrySize)
        (entrySet name short cluster size attr layout.kind)) layout.kind ↔
      record ∈ records bytes layout.kind ∨ record = inserted.record := by
  obtain ⟨_, _, padded⟩ := (shortName_spec inserted.chosen).2
  rw [mem_records_placed name padded cluster size layout.kind inserted.aligned inserted.valid
    plain.1 plain.2 inserted.room,
    records_append_zeros (inserted.loaded.entrySize_dvd shaped) count]
  rfl

theorem record_cluster (small : cluster < layout.kind.modulus) :
    inserted.record.cluster = cluster := by
  obtain ⟨_, _, padded⟩ := (shortName_spec inserted.chosen).2
  exact entryCluster_retargeted (length_blankEntry padded.length attr) cluster size _ small

theorem record_attr : inserted.record.attr = attr := by
  obtain ⟨_, _, padded⟩ := (shortName_spec inserted.chosen).2
  exact (field_shortEntry padded.length cluster size attr layout.kind).1

include inserted

section

variable (sound : layout.Sound before cluster) (live : layout.Live before dir)
  (shaped : before.Shaped layout)
include sound live shaped

theorem harmless :
    Harmless layout before cluster middle cluster ∧ SameChain layout before middle cluster :=
  inserted.grows.harmless sound live inserted.loaded (inserted.loaded.entrySize_dvd shaped)
    inserted.limitGrown

theorem rewrites : Rewrites layout dir other (bytes ++ List.replicate count 0)
      (placedBytes (bytes ++ List.replicate count 0) (place * entrySize)
        (entrySet name short cluster size attr layout.kind)) middle cluster after := by
  obtain ⟨harmless, _⟩ := inserted.harmless sound live shaped
  exact ⟨harmless.sound, harmless.same.live_of live, inserted.grown, inserted.rewritten⟩

/-- A pending directory without records has none while the directory it is entered into grows. -/
theorem not_recordIn_middle (empty : ∀ record, ¬layout.RecordIn before ⟨cluster, false⟩ record)
    (record : Record) : ¬layout.RecordIn middle ⟨cluster, false⟩ record := by
  rintro ⟨_, _, data, member⟩
  obtain ⟨nonempty, linked, rfl⟩ := data.chainOf rfl
  obtain ⟨old, oldLinked⟩ := sound.chained _ _ .pending
  obtain ⟨oldLinkedMiddle, contents⟩ := (inserted.harmless sound live shaped).2 old oldLinked
  obtain rfl := oldLinkedMiddle.unique linked
  have same : old.flatMap middle.data = old.flatMap before.data :=
    List.flatMap_congr contents
  rw [same] at member
  exact empty record ⟨old, _, .of_chainOf rfl oldLinked nonempty, member⟩

end

/-- A volume stays sound when a pending chain is entered into a directory. -/
theorem sound (sound : layout.Sound before cluster) (live : layout.Live before dir)
    (shaped : before.Shaped layout) (plain : Plain attr) (small : cluster < layout.kind.modulus)
    (empty : attr &&& 0x10 ≠ 0 → ∀ record, ¬layout.RecordIn before ⟨cluster, false⟩ record) :
    layout.Sound after 0 := by
  have aligned := inserted.loaded.entrySize_dvd shaped
  refine (inserted.rewrites sound live shaped).sound_insert
    (fun record member => ?_) ((inserted.mem_records plain shaped).mpr (Or.inr rfl))
    (inserted.record_cluster small) ?_
  · rw [records_append_zeros aligned]
    exact (inserted.mem_records plain shaped).mp member
  · rw [Record.isDir, inserted.record_attr, inserted.record_cluster small, bne_iff_ne]
    exact fun isDir => inserted.not_recordIn_middle sound live shaped (empty isDir)

end Inserted

end Inserting

end Mmurtl.Fat

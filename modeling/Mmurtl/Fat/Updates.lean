/-
This file proves what the driver's changes to a directory do to its records: changing
the first cluster and size of a record, marking a record as deleted, and adding a
record, for which a directory that is a chain may have to grow.
-/

import Mmurtl.Fat.Directory

namespace Mmurtl.Fat

open Bytes List

variable {record : Record} {layout : Layout} {new begin index position start limit size : Nat}
  {before : View} {indices chain : List Nat} {bytes entry : List UInt8} {dir : Dir} {store : Store}

/-! ### Changing a record -/

section Update

variable {start limit : Nat} {store : Store} {dir : Dir} {chain : List Nat} {bytes : List UInt8}

/-- An entry of a directory touches one sector. -/
theorem touched_entry (position : Nat) :
    touched (position * entrySize) entrySize = [position * entrySize / sectorSize] := by
  have count : (position * entrySize + entrySize + sectorSize - 1) / sectorSize -
      position * entrySize / sectorSize = 1 := by
    unfold entrySize sectorSize
    omega
  rw [touched, count]
  rfl

/-- A write that was the only one and failed changed nothing. -/
theorem Ready.stopped_of_single (ready : Ready start limit store) {write : Nat × Sector}
    {after : Store} (interrupted : Interrupted [write] store after)
    (region : store.volume.rootLba ≤ write.1 ∧ write.1 < limit) (touched : Nat → Prop) :
    Stopped start touched store after := by
  obtain ⟨done, _, _, split, disk, _⟩ := interrupted.progress
  have nothing : done = [] := by
    cases done with
    | nil => rfl
    | cons first others =>
      have lengths := congrArg List.length split
      simp at lengths
  have sectors : after.disk.sector = store.disk.sector := by
    rw [disk, nothing]
    rfl
  obtain ⟨kept, view⟩ := ready.deviceView_of_interrupted
    (fun other member => mem_singleton.mp member ▸ region.1) interrupted
  refine ⟨by rw [interrupted.volume], interrupted.unreliable fun other member => ?_, kept, ?_⟩
  · rw [mem_singleton.mp member]
    exact Nat.lt_of_lt_of_le region.2 ready.inside
  · have same : after.deviceView = store.view := by
      rw [view]
      exact ready.placed.view_congr _ fun lba _ => by rw [sectors]
    rw [same]
    exact View.AgreesOff.refl ..

/-- The bytes of a directory in which a record has another first cluster and size. -/
def retargetBytes (bytes : List UInt8) (position first size : Nat) (kind : Kind) : List UInt8 :=
  patch bytes (position * entrySize)
    (retargeted (slice bytes (position * entrySize) entrySize) first size kind)

theorem getElem?_entries_eq_some {data : List UInt8} :
    (entries data)[position]? = some entry ↔
      position < data.length / entrySize ∧ entry = slice data (position * entrySize) entrySize := by
  rw [getElem?_entries]
  split
  · rename_i inside
    exact ⟨fun same => ⟨inside, (Option.some.inj same).symm⟩, fun same => by rw [same.2]⟩
  · rename_i outside
    exact ⟨nofun, fun same => absurd same.1 outside⟩

theorem patch_edit {data part : List UInt8} {begin : Nat}
    (room : begin + part.length ≤ data.length) :
    Edit data (patch data begin part) begin part.length :=
  ⟨length_patch room, by rw [length_patch room]; exact room,
    fun _ away => away.elim (getElem?_patch_of_lt room) (getElem?_patch_of_ge room)⟩

/-- A record that is changed is one entry. -/
theorem retarget_edit (inside : position < bytes.length / entrySize) (first size : Nat)
    (kind : Kind) :
    Edit bytes (retargetBytes bytes position first size kind) (position * entrySize) entrySize := by
  have room := entry_fits inside
  have length := length_retargeted (length_slice room) first size kind
  have edit := patch_edit (show position * entrySize + (retargeted
    (slice bytes (position * entrySize) entrySize) first size kind).length ≤ bytes.length by
      rw [length]; exact room)
  rw [length] at edit
  exact edit

variable [CaseMapping]

/-- Changing a record keeps all names and all other records. -/
theorem records_retargetBytes {kind : Kind} {first : Nat}
    (slot : SlotAt kind (entries bytes) position entry record) (firstSmall : first < kind.modulus)
    (sizeSmall : size < 4294967296) :
    records (retargetBytes bytes position first size kind) kind =
      (records bytes kind).map (Record.retarget record.offset first size) := by
  obtain ⟨inside, rfl⟩ := getElem?_entries_eq_some.mp slot.found
  have whole := length_of_entry slot.found
  rw [records, retargetBytes, entries_patch (length_retargeted whole first size kind)
    (by rw [length_entries]; exact inside), readRecords_set slot.found slot.short
    (sameName_retargeted whole first size kind), entryCluster_retargeted whole first size kind
    firstSmall, u32le_retargeted whole first size kind sizeSmall, Nat.zero_add,
    slot.offset, records]

/-- Updating a record changes its first cluster and size in one write. -/
theorem update_meets (ready : Ready start limit store)
    (data : store.volume.DirData store.view dir chain bytes)
    (short : chain.length ≤ maxMetadata / store.volume.bytes)
    (slot : SlotAt store.volume.kind (entries bytes) position entry record) (first size : Nat) :
    (update dir record first size).Meets store (fun _ after => Moved start limit store after ∧
        Rewritten store.volume.toLayout dir chain
          (retargetBytes bytes position first size store.volume.kind) store.view after.view)
      (fun _ after => Stopped start (fun _ => False) store after) := by
  have loaded := ready.loadDir_eq_ok_iff.mpr ⟨data, short⟩
  obtain ⟨inside, same⟩ := getElem?_entries_eq_some.mp slot.found
  have room := entry_fits inside
  have offset := slot.offset
  have name : slice bytes record.offset 11 = record.short := by
    rw [slot.record, same]
    show slice bytes (position * entrySize) 11 =
      (slice bytes (position * entrySize) entrySize).take 11
    rw [slice, slice, take_take]
    rfl
  refine .step (Prod.ext loaded rfl) ?_
  refine .gets ?_
  simp only [slice?_of_le (show record.offset + 11 ≤ bytes.length by
    rw [offset]; unfold entrySize at *; omega)]
  refine .expect rfl ?_
  rw [if_neg (not_not.mpr name)]
  simp only [slice?_of_le (show record.offset + entrySize ≤ bytes.length
    by rw [offset]; exact room)]
  refine .expect rfl ?_
  rw [offset]
  have edit := retarget_edit inside first size store.volume.kind
  refine (storeDir_meets ready data edit).loosen ?_
  · rintro _ after ⟨_, storable, interrupted⟩
    rw [touched_entry] at interrupted
    refine ready.stopped_of_single interrupted ?_ _
    refine ready.placed.dirLbas_region storable.valid (storable.dirWrites_mem edit.fits ?_)
    rw [touched_entry]
    exact mem_singleton_self _

end Update

/-! ### Growing a directory -/

/-- A free cluster of zeros was put behind the last cluster of a directory. -/
structure GrowStep (layout : Layout) (dir : Dir) (chain : List Nat) (new : Nat)
    (before after : View) : Prop where
  chained : layout.fixedRoot dir = false
  linked : layout.ChainOf before.entry dir.cluster chain
  free : before.entry new = 0
  extended : layout.ChainOf after.entry dir.cluster (chain ++ [new])
  entry : ∀ cluster, cluster ≠ new → chain.getLast? ≠ some cluster →
    after.entry cluster = before.entry cluster
  data : ∀ cluster, cluster ≠ new → after.data cluster = before.data cluster
  zeros : after.data new = List.replicate layout.bytes 0
  root : after.root = before.root

theorem GrowStep.dirData {after : View} (grow : GrowStep layout dir chain new before after)
    (data : layout.DirData before dir chain bytes) :
    layout.DirData after dir (chain ++ [new]) (bytes ++ List.replicate layout.bytes 0) := by
  unfold Layout.DirData at data ⊢
  rw [grow.chained, if_neg (by decide)] at data ⊢
  refine ⟨by simp, grow.extended, ?_⟩
  rw [flatMap_append, flatMap_singleton, grow.zeros, data.2.2, flatMap_def, flatMap_def]
  refine congrArg (· ++ _) (congrArg List.flatten (map_congr_left fun cluster member => ?_))
  refine (grow.data cluster ?_).symm
  rintro rfl
  exact data.2.1.entry_ne_zero member grow.free

/-- A directory grew by some clusters of zeros. -/
inductive Grows (layout : Layout) (dir : Dir) : View → List Nat → View → List Nat → Prop
  | refl (view : View) (chain : List Nat) : Grows layout dir view chain view chain
  | step {first middle last : View} {chain other : List Nat} {new : Nat} :
      GrowStep layout dir chain new first middle →
      Grows layout dir middle (chain ++ [new]) last other → Grows layout dir first chain last other

section Grow

variable {start limit : Nat} {store : Store} {dir : Dir} {chain : List Nat} {bytes : List UInt8}

theorem Layout.freeIn_congr {before after : Nat → Nat}
    (same : ∀ cluster, layout.valid cluster = true → (after cluster = 0 ↔ before cluster = 0)) :
    layout.freeIn after = layout.freeIn before := by
  refine countP_congr fun cluster member => ?_
  rw [beq_iff_eq, beq_iff_eq]
  exact same cluster (mem_clusters.mp member)

/-- A cluster that was taken and filled with zeros, and is linked behind the last one. -/
theorem Taken.growStep {first : View} {last : Nat} (placed : layout.Placed start limit)
    (taken : Taken layout before first [new]) (chained : layout.fixedRoot dir = false)
    (linked : layout.ChainOf before.entry dir.cluster chain) (ends : chain.getLast? = some last) :
    GrowStep layout dir chain new before
      ((first.store new (List.replicate layout.bytes 0)).link last new) := by
  have newMember : new ∈ [new] := mem_singleton_self _
  have newValid := taken.linked.valid newMember
  have lastMember := mem_of_getLast? ends
  have different : ∀ cluster ∈ chain, cluster ≠ new := by
    rintro cluster member rfl
    exact linked.entry_ne_zero member (taken.free _ newMember)
  have viewEntry : ∀ cluster, cluster ≠ last →
      ((first.store new (List.replicate layout.bytes 0)).link last new).entry cluster =
        first.entry cluster := fun cluster away => View.link_entry_of_ne _ _ away
  have entry : ∀ cluster, cluster ≠ new → cluster ≠ last →
      ((first.store new (List.replicate layout.bytes 0)).link last new).entry cluster =
        before.entry cluster := by
    intro cluster notNew notLast
    rw [viewEntry cluster notLast, taken.agrees.entry cluster (by simpa using notNew)]
  have stop : layout.link
      ((first.store new (List.replicate layout.bytes 0)).link last new).entry new = .stop := by
    have alone := taken.linked.linked_of_mem newMember
    cases alone with
    | last stop =>
      rw [Layout.link, viewEntry new (different last lastMember).symm]
      exact stop
    | next _ tail => exact absurd rfl tail.ne_nil
  refine ⟨chained, linked, taken.free _ newMember, ?_, ?_, ?_, ?_, taken.agrees.root⟩
  · refine Or.inr ((linked.linked_of_mem lastMember).snoc ends (fun cluster member notLast => ?_)
      ?_ stop)
    · rw [Layout.link, Layout.link, entry cluster (different cluster member) notLast]
    · rw [Layout.link_of_valid (linked.valid lastMember), View.link_entry_self,
        placed.valid_not_eof newValid]
      rfl
  · intro cluster notNew notLast
    exact entry cluster notNew fun here => notLast (here ▸ ends)
  · intro cluster notNew
    show (first.store new _).data cluster = _
    rw [View.store_data_of_ne _ _ notNew, taken.agrees.data cluster (by simpa using notNew)]
  · exact View.store_data_self ..

/-- Adding a cluster on a device that does not fail. -/
theorem grow_meets (mounted : Mounted start limit store) (reliable : store.disk.Reliable)
    (chained : store.volume.fixedRoot dir = false) (nonempty : chain ≠ [])
    (linked : store.volume.ChainOf store.view.entry dir.cluster chain) :
    (grow store.volume chain).Meets store
      (fun new after => Mounted start limit after ∧ Kept start store after ∧
        GrowStep store.volume.toLayout dir chain new store.view after.view ∧
        ∃ reserved, allocate 1 store = (.ok [new], reserved))
      (fun reason after => reason = .diskFull ∧ after = store) := by
  rcases (allocate_meets mounted 1).cases with
    ⟨_, first, allocation, mountedFirst, kept, one, taken⟩ | ⟨_, _, refused, failed⟩
  swap
  · exact .of_error (Program.bind_of_error refused)
      (failed.resolve_right fun stopped => stopped.unreliable reliable)
  refine .step allocation ?_
  obtain ⟨new, rfl⟩ := length_eq_one_iff.mp one
  have newMember : new ∈ [new] := mem_singleton_self _
  have newValid := taken.linked.valid newMember
  have layout := kept.layout
  refine .expect rfl ?_
  refine .bind ((writeCluster_meets mountedFirst.toReady (by rw [layout]; exact newValid)
    (by rw [length_replicate, layout])).loosen fun _ after stopped =>
      absurd (kept.reliable reliable) stopped.unreliable)
    fun _ second ⟨movedSecond, viewSecond⟩ => ?_
  have layoutSecond : second.volume.toLayout = store.volume.toLayout :=
    movedSecond.kept.layout.trans layout
  obtain ⟨last, ends⟩ : ∃ last, chain.getLast? = some last :=
    ⟨_, getLast?_eq_some_getLast nonempty⟩
  have lastMember := mem_of_getLast? ends
  have lastValid := linked.valid lastMember
  have grown : GrowStep store.volume.toLayout dir chain new store.view
      (second.view.link last new) := by
    rw [viewSecond]
    exact taken.growStep mounted.placed chained linked ends
  rw [ends]
  refine .bind ((set_meets movedSecond.ready (by rw [layoutSecond]; exact lastValid)
    (by rw [layoutSecond]; exact mounted.placed.valid_lt_modulus newValid)).loosen
      fun _ _ stopped => absurd (movedSecond.kept.reliable (kept.reliable reliable))
        stopped.unreliable) fun _ third ⟨movedThird, viewThird⟩ => ?_
  have moved := movedSecond.trans movedThird
  refine .pure ⟨mountedFirst.moved moved ?_, kept.trans moved.kept, viewThird ▸ grown, first,
    allocation⟩
  refine Layout.freeIn_congr fun cluster _ => ?_
  rw [viewThird, viewSecond]
  by_cases here : cluster = last
  · have used := linked.entry_ne_zero lastMember
    have away : last ∉ [new] := by
      intro wrong
      exact used (mem_singleton.mp wrong ▸ taken.free _ newMember)
    rw [here, View.link_entry_self, taken.agrees.entry last away]
    have some_ := Layout.valid_iff.mp newValid
    exact ⟨fun zero => by omega, fun zero => absurd zero used⟩
  · rw [View.link_entry_of_ne _ _ here]
    rfl

/-- How much of its space a directory takes. -/
theorem length_dirData (ready : Ready start limit store)
    (data : store.volume.DirData store.view dir chain bytes)
    (chained : store.volume.fixedRoot dir = false)
    (fits : bytes.length + store.volume.bytes ≤ maxMetadata) :
    chain.length + 1 ≤ maxMetadata / store.volume.bytes := by
  have length := data.length store.shaped
  rw [chained, if_neg (by decide)] at length
  rw [length, ← Nat.succ_mul] at fits
  exact (Nat.le_div_iff_mul_le ready.placed.bytes_pos).mpr fits

theorem searchSlots_isSome {needed run : Nat} {ended : Bool} {items tail : List (List UInt8)}
    (zeros : ∀ entry ∈ tail, field entry 0 = 0) (below : run < needed)
    (room : needed ≤ tail.length) :
    (searchSlots needed run ended index (items ++ tail)).isSome = true := by
  induction items generalizing run ended index with
  | cons entry rest ih =>
    simp only [cons_append, searchSlots]
    split
    · split
      · rfl
      · exact ih (by omega)
    · exact ih (by omega)
  | nil =>
    have enough : needed ≤ run + tail.length := by omega
    clear room
    induction tail generalizing run ended index with
    | nil =>
      rw [length_nil] at enough
      omega
    | cons entry rest ih =>
      obtain ⟨zero, others⟩ := forall_mem_cons.mp zeros
      rw [length_cons] at enough
      simp only [nil_append, searchSlots, zero, beq_self_eq_true, Bool.or_true, Bool.true_or,
        ↓reduceIte]
      split
      · rfl
      · exact ih others (by omega) (by omega)

/-- Enough zeros behind a directory are room for new entries. -/
theorem freeSlots_append_zeros {needed count : Nat} (aligned : entrySize ∣ bytes.length)
    (some_ : 0 < needed) (room : needed * entrySize ≤ count) :
    freeSlots (bytes ++ List.replicate count 0) needed ≠ none := by
  rw [freeSlots, entries_append aligned, Option.ne_none_iff_isSome]
  refine searchSlots_isSome (fun entry member => ?_) some_ ?_
  · obtain ⟨_, found⟩ := mem_iff_getElem?.mp member
    rw [field_of_entry found (by decide), getElem?_replicate]
    split <;> rfl
  · rw [length_entries, length_replicate]
    exact (Nat.le_div_iff_mul_le (by decide)).mpr room

/-- A cluster was put behind the last cluster of a directory. -/
def Lengthened (dir : Dir) (last new : Nat) (before after : Store) : Prop :=
  ∃ chain bytes reserved, before.volume.DirData before.view dir chain bytes ∧
    chain.length + 1 ≤ maxMetadata / before.volume.bytes ∧ chain.getLast? = some last ∧
    allocate 1 before = (.ok [new], reserved) ∧
    GrowStep before.volume.toLayout dir chain new before.view after.view

/-- A directory has no room and cannot grow any more. It has grown by one cluster only if that is
not enough. -/
structure Refused (start limit : Nat) (dir : Dir) (needed : Nat) (bytes : List UInt8)
    (before after : Store) : Prop where
  mounted : Mounted start limit after
  kept : Kept start before after
  full : freeSlots bytes needed = none
  cause : after = before ∨
    freeSlots (bytes ++ List.replicate before.volume.bytes 0) needed = none ∧
      ∃ last new, Lengthened dir last new before after

/-- Room is found, or the directory cannot grow any more. -/
theorem makeRoom_meets {needed steps : Nat} (mounted : Mounted start limit store)
    (reliable : store.disk.Reliable) (data : store.volume.DirData store.view dir chain bytes)
    (short : chain.length ≤ maxMetadata / store.volume.bytes)
    (enough : maxMetadata / store.volume.bytes < steps + chain.length) (some_ : 0 < needed)
    (few : needed ≤ 32) :
    (makeRoom dir needed steps chain bytes).Meets store
      (fun found after => Mounted start limit after ∧ Kept start store after ∧
        Grows store.volume.toLayout dir store.view chain after.view found.2.1 ∧
        store.volume.DirData after.view dir found.2.1 found.2.2 ∧
        found.2.1.length ≤ maxMetadata / store.volume.bytes ∧
        freeSlots found.2.2 needed = some found.1 ∧
        ∃ count, found.2.2 = bytes ++ List.replicate count 0)
      (fun _ after => Refused start limit dir needed bytes store after) := by
  induction steps generalizing store chain bytes with
  | zero => omega
  | succ steps ih =>
    rw [makeRoom]
    cases found : freeSlots bytes needed with
    | some start =>
      exact .pure ⟨mounted, Kept.refl .., .refl .., data, short, found, 0, by simp⟩
    | none =>
      have stay : Refused start limit dir needed bytes store store :=
        ⟨mounted, Kept.refl .., found, Or.inl rfl⟩
      refine .gets ?_
      refine .guard stay fun fixed => ?_
      refine .guard stay fun large => ?_
      have chained := Bool.eq_false_iff.mpr fixed
      have room := length_dirData mounted.toReady data chained (Nat.le_of_not_lt large)
      obtain ⟨nonempty, linked, _⟩ := data.chainOf chained
      refine .bind ((grow_meets mounted reliable chained nonempty linked).loosen
        fun _ _ failed => failed.2 ▸ stay)
        fun new middle ⟨mountedMiddle, kept, step, reserved, allocation⟩ => ?_
      have layout := kept.layout
      have dataMiddle := step.dirData data
      refine (ih mountedMiddle (kept.reliable reliable) (by rw [layout]; exact dataMiddle)
        (by rw [layout, length_append]; exact room)
        (by rw [layout, length_append, length_singleton]; omega)).mono ?_ ?_
      · rw [layout]
        rintro _ _ ⟨mountedLast, keptLast, grows, dataLast, shortLast, free, count, same⟩
        refine ⟨mountedLast, kept.trans keptLast, .step step grows, dataLast, shortLast, free,
          store.volume.bytes + count, ?_⟩
        rw [same, append_assoc, replicate_append_replicate]
      · rintro _ _ ⟨mountedLast, keptLast, full, rfl | ⟨again, _⟩⟩
        · exact ⟨mountedLast, kept, found, Or.inr ⟨full, _, new, chain, bytes, reserved, data,
            room, getLast?_eq_some_getLast nonempty, allocation, step⟩⟩
        · rw [layout, append_assoc, replicate_append_replicate] at again
          refine absurd again (freeSlots_append_zeros (data.entrySize_dvd store.shaped) some_ ?_)
          have positive := mounted.placed.spc_pos
          unfold Layout.bytes sectorSize entrySize
          omega

end Grow

/-! ### Placing new entries -/

/-- Whether new entries take the place of an end marker. -/
def consumes (bytes : List UInt8) (start count : Nat) : Bool :=
  (entries (slice bytes start count)).any fun entry => field entry 0 == 0

/-- A directory with an end marker behind the place of new entries, if it needs one. -/
def markedBytes (bytes : List UInt8) (start : Nat) (group : List UInt8) : List UInt8 :=
  if consumes bytes start group.length ∧ start + group.length < bytes.length then
    bytes.set (start + group.length) 0
  else bytes

/-- A directory with new entries. -/
def placedBytes (bytes : List UInt8) (start : Nat) (group : List UInt8) : List UInt8 :=
  patch (markedBytes bytes start group) start group

@[simp] theorem length_markedBytes (bytes : List UInt8) (start : Nat) (group : List UInt8) :
    (markedBytes bytes start group).length = bytes.length := by
  unfold markedBytes
  split
  · exact length_set
  · rfl

theorem Rewritten.trans {firstBytes secondBytes : List UInt8} {first second third : View}
    (left : Rewritten layout dir chain firstBytes first second)
    (right : Rewritten layout dir chain secondBytes second third) :
    Rewritten layout dir chain secondBytes first third :=
  ⟨right.entry.trans left.entry, fun cluster away =>
    (right.data cluster away).trans (left.data cluster away),
    fun chained => (right.root chained).trans (left.root chained), right.dirData⟩

theorem Rewritten.refl {view : View} (data : layout.DirData view dir chain bytes) :
    Rewritten layout dir chain bytes view view := ⟨rfl, fun _ _ => rfl, fun _ => rfl, data⟩

section Place

variable {start limit : Nat} {store : Store} {dir : Dir} {chain : List Nat}
  {bytes group : List UInt8} {first count : Nat}

/-- Storing on a device that does not fail. -/
theorem storeDir_reliable (ready : Ready start limit store) (reliable : store.disk.Reliable)
    {old new : List UInt8} (data : store.volume.DirData store.view dir chain old)
    (edit : Edit old new begin size) :
    (storeDir dir chain new begin size).Meets store (fun _ after => Moved start limit store after ∧
        Rewritten store.volume.toLayout dir chain new store.view after.view)
      (fun _ _ => False) := by
  refine (storeDir_meets ready data edit).loosen ?_
  rintro _ _ ⟨_, storable, interrupted⟩
  refine absurd reliable (interrupted.unreliable fun write member => ?_)
  exact Nat.lt_of_lt_of_le (ready.placed.dirLbas_region storable.valid
    (storable.dirWrites_mem edit.fits member)).2 ready.inside

/-- Storing under a condition, where otherwise there is nothing to store. -/
theorem storeWhen_reliable (ready : Ready start limit store) (reliable : store.disk.Reliable)
    {old new : List UInt8} (data : store.volume.DirData store.view dir chain old) {condition : Prop}
    [Decidable condition] (same : ¬condition → new = old)
    (edit : condition → Edit old new begin size) :
    (Program.when condition (storeDir dir chain new begin size)).Meets store
      (fun _ after => Moved start limit store after ∧
        Rewritten store.volume.toLayout dir chain new store.view after.view)
      (fun _ _ => False) := by
  refine .when (fun needed => storeDir_reliable ready reliable data (edit needed))
    fun needless => ?_
  rw [same needless]
  exact ⟨Moved.refl ready, Rewritten.refl data⟩

/-- A directory with the long-name entries of a new record. -/
def namedBytes (bytes : List UInt8) (begin : Nat) (group : List UInt8) : List UInt8 :=
  patch (markedBytes bytes begin group) begin (group.take (group.length - entrySize))

/-- Without long-name entries nothing is put in their place. -/
theorem namedBytes_of_short (short : ¬group.length > entrySize) :
    namedBytes bytes begin group = markedBytes bytes begin group := by
  rw [namedBytes, Nat.sub_eq_zero_of_le (Nat.le_of_not_lt short), take_zero, patch_nil]

/-- The long-name entries and the short entry are the new entries. -/
theorem placedBytes_eq (small : entrySize ≤ group.length)
    (fits : begin + group.length ≤ bytes.length) :
    patch (namedBytes bytes begin group) (begin + (group.length - entrySize))
      (group.drop (group.length - entrySize)) = placedBytes bytes begin group := by
  have longLength : (group.take (group.length - entrySize)).length = group.length - entrySize := by
    rw [length_take]
    omega
  have shortLength : (group.drop (group.length - entrySize)).length = entrySize := by
    rw [length_drop]
    omega
  have both := patch_patch
    (by rw [longLength, shortLength, length_markedBytes]; omega : begin +
      ((group.take (group.length - entrySize)).length +
        (group.drop (group.length - entrySize)).length) ≤ (markedBytes bytes begin group).length)
  rw [longLength, take_append_drop] at both
  exact both

/-- The three stores of new entries: the end marker, the long-name entries, the short entry. -/
theorem placeEntries_eq (dir : Dir) (chain : List Nat) (small : entrySize ≤ group.length)
    (fits : begin + group.length ≤ bytes.length) :
    placeEntries dir chain bytes begin group = (do
      .when (consumes bytes begin group.length ∧ begin + group.length < bytes.length)
        (storeDir dir chain (markedBytes bytes begin group) (begin + group.length) entrySize)
      .when (group.length > entrySize)
        (storeDir dir chain (namedBytes bytes begin group) begin (group.length - entrySize))
      storeDir dir chain (placedBytes bytes begin group) (begin + (group.length - entrySize))
        entrySize) := by
  have named : (if group.length > entrySize then patch (markedBytes bytes begin group) begin
      (group.take (group.length - entrySize)) else markedBytes bytes begin group) =
        namedBytes bytes begin group := by
    split
    · rfl
    · rename_i short
      exact (namedBytes_of_short short).symm
  rw [← placedBytes_eq small fits, ← named]
  exact Program.require_bind ⟨small, fits⟩ _

theorem named_edit (fits : begin + group.length ≤ bytes.length) :
    Edit (markedBytes bytes begin group) (namedBytes bytes begin group) begin
    (group.length - entrySize) := by
  have length : (group.take (group.length - entrySize)).length = group.length - entrySize := by
    rw [length_take]
    omega
  have edit := patch_edit (show begin + (group.take (group.length - entrySize)).length ≤
    (markedBytes bytes begin group).length by rw [length, length_markedBytes]; omega)
  rw [length] at edit
  exact edit

theorem placed_edit (fits : begin + group.length ≤ bytes.length)
    (small : entrySize ≤ group.length) : Edit (namedBytes bytes begin group)
    (placedBytes bytes begin group) (begin + (group.length - entrySize)) entrySize := by
  have length : (group.drop (group.length - entrySize)).length = entrySize := by
    rw [length_drop]
    omega
  have edit := patch_edit (show begin + (group.length - entrySize) +
    (group.drop (group.length - entrySize)).length ≤ (namedBytes bytes begin group).length by
      rw [length, (named_edit fits).length, length_markedBytes]
      omega)
  rw [length, placedBytes_eq small fits] at edit
  exact edit

/-- The end marker behind new entries is one entry. -/
theorem marked_edit (aligned : entrySize ∣ bytes.length)
    (whole : group.length = (count + 1) * entrySize)
    (needed : consumes bytes (first * entrySize) group.length ∧
      first * entrySize + group.length < bytes.length) :
    Edit bytes (markedBytes bytes (first * entrySize) group) (first * entrySize + group.length)
      entrySize := by
  refine ⟨length_markedBytes .., ?_, fun index away => ?_⟩
  · rw [length_markedBytes]
    obtain ⟨_, length⟩ := aligned
    have below := needed.2
    rw [whole, length] at below ⊢
    unfold entrySize at *
    omega
  · have positive : 0 < entrySize := by decide
    rw [markedBytes, if_pos needed, getElem?_set_ne (by omega)]

theorem placeEntries_meets (ready : Ready start limit store) (reliable : store.disk.Reliable)
    (data : store.volume.DirData store.view dir chain bytes)
    (whole : group.length = (count + 1) * entrySize)
    (fits : first * entrySize + group.length ≤ bytes.length) :
    (placeEntries dir chain bytes (first * entrySize) group).Meets store
      (fun _ after => Moved start limit store after ∧
        Rewritten store.volume.toLayout dir chain (placedBytes bytes (first * entrySize) group)
          store.view after.view) (fun _ _ => False) := by
  have small : entrySize ≤ group.length := by
    rw [whole, Nat.succ_mul]
    exact Nat.le_add_left ..
  rw [placeEntries_eq dir chain small fits]
  refine .bind (storeWhen_reliable ready reliable data (fun needless => if_neg needless)
    (marked_edit (data.entrySize_dvd store.shaped) whole)) fun _ second ⟨movedSecond, marked⟩ => ?_
  have layoutSecond := movedSecond.kept.layout
  have reliableSecond := movedSecond.kept.reliable reliable
  refine .bind (storeWhen_reliable movedSecond.ready reliableSecond
    (by rw [layoutSecond]; exact marked.dirData) namedBytes_of_short fun _ => named_edit fits)
    fun _ third ⟨movedThird, named⟩ => ?_
  have layoutThird := movedThird.kept.layout
  refine (storeDir_reliable movedThird.ready (movedThird.kept.reliable reliableSecond)
    (by rw [layoutThird]; exact named.dirData) (placed_edit fits small)).mono ?_
    fun _ _ impossible => impossible
  rintro _ _ ⟨moved, placed⟩
  rw [layoutThird, layoutSecond] at placed
  rw [layoutSecond] at named
  exact ⟨(movedSecond.trans movedThird).trans moved, (marked.trans named).trans placed⟩

end Place

/-! ### The records of a directory with new entries -/

section Added

variable [CaseMapping] {bytes group : List UInt8} {first count : Nat}
  (whole : group.length = (count + 1) * entrySize)
  (fits : first * entrySize + group.length ≤ bytes.length)

include whole fits

omit [CaseMapping] in
/-- The entries of a part of a directory. -/
theorem getElem?_entries_slice (below : index < count + 1) :
    (entries (slice bytes (first * entrySize) group.length))[index]? =
      (entries bytes)[first + index]? := by
  have room : first + index < bytes.length / entrySize := by
    refine (Nat.le_div_iff_mul_le (by decide)).mpr (Nat.le_trans ?_ fits)
    rw [whole, ← Nat.add_mul]
    exact Nat.mul_le_mul_right _ (by omega)
  have inner : index * entrySize + entrySize ≤ group.length := by
    rw [whole, ← Nat.succ_mul]
    exact Nat.mul_le_mul_right _ below
  rw [getElem?_entries, getElem?_entries, length_slice fits, if_pos room, if_pos, slice_slice inner,
    ← Nat.add_mul]
  rw [whole, Nat.mul_div_cancel _ (by decide)]
  exact below

theorem consumes_iff : consumes bytes (first * entrySize) group.length = true ↔
    ∃ index, first ≤ index ∧ index < first + (count + 1) ∧
      MarkAt (entries bytes) index .finish := by
  have total : (entries (slice bytes (first * entrySize) group.length)).length = count + 1 := by
    rw [length_entries, length_slice fits, whole, Nat.mul_div_cancel _ (by decide)]
  rw [consumes, any_eq_true]
  constructor
  · rintro ⟨entry, member, zero⟩
    obtain ⟨index, found⟩ := mem_iff_getElem?.mp member
    have below : index < count + 1 := total ▸ (List.getElem?_eq_some_iff.mp found).1
    rw [getElem?_entries_slice whole fits below] at found
    exact ⟨first + index, by omega, by omega, entry, found,
      mark_eq_finish.mpr (by simpa using zero)⟩
  · rintro ⟨index, _, _, entry, found, finish⟩
    have place : index = first + (index - first) := by omega
    rw [place, ← getElem?_entries_slice whole fits (by omega)] at found
    exact ⟨entry, mem_of_getElem? found, by simpa using mark_eq_finish.mp finish⟩

omit [CaseMapping] fits in
/-- Where the end marker goes. -/
theorem marker_eq : first * entrySize + group.length = (first + (count + 1)) * entrySize := by
  rw [whole, ← Nat.add_mul]

omit [CaseMapping] in
theorem getElem?_entries_placed (index : Nat) :
    (entries (placedBytes bytes (first * entrySize) group))[index]? =
      if first ≤ index ∧ index < first + (count + 1) then (entries group)[index - first]?
      else (entries (markedBytes bytes (first * entrySize) group))[index]? :=
  getElem?_entries_patch whole (by rw [length_markedBytes]; exact fits) index

/-- Entries that are those of the marked directory behind the place of new ones. -/
theorem replaceable_of_marked (free : FreeRun (entries bytes) first (count + 1))
    {after : List (List UInt8)} (behind : ∀ index, first + count < index →
      after[index]? = (entries (markedBytes bytes (first * entrySize) group))[index]?) :
    Replaceable (entries bytes) after first (first + count) := by
  rcases free with deleted | ⟨finish, below, above, stop, deleted⟩
  · have unmarked : markedBytes bytes (first * entrySize) group = bytes := by
      refine if_neg fun consumed => ?_
      obtain ⟨index, large, small, entry, found, finish⟩ := (consumes_iff whole fits).mp consumed.1
      exact absurd finish (MarkAt.ne (deleted index large small) nofun found)
    refine Or.inl ⟨fun index large small => deleted index large (by omega), fun index far => ?_⟩
    rw [behind index far, unmarked]
  · have consumed : consumes bytes (first * entrySize) group.length = true :=
      (consumes_iff whole fits).mpr ⟨finish, above, below, stop⟩
    refine Or.inr ⟨⟨finish, by omega, above, stop, deleted⟩, fun entry found => ?_⟩
    rw [behind _ (by omega)] at found
    have place : first * entrySize + group.length = _ := marker_eq whole
    by_cases room : first * entrySize + group.length < bytes.length
    · rw [markedBytes, if_pos ⟨consumed, room⟩, place] at found
      have inside : first + (count + 1) < (entries bytes).length := by
        have bound := (List.getElem?_eq_some_iff.mp found).1
        rw [length_entries, length_set] at bound
        rw [length_entries]
        exact bound
      obtain ⟨_, _, _, there, zero⟩ := entries_set inside 0
      rw [Nat.add_assoc, there] at found
      cases found
      exact mark_eq_finish.mpr zero
    · have bound := (List.getElem?_eq_some_iff.mp found).1
      rw [length_entries, length_markedBytes] at bound
      rw [place] at room
      unfold entrySize at *
      omega

theorem replaceable_placed (free : FreeRun (entries bytes) first (count + 1)) :
    Replaceable (entries bytes) (entries (placedBytes bytes (first * entrySize) group)) first
      (first + count) := by
  refine replaceable_of_marked whole fits free fun index far => ?_
  rw [getElem?_entries_placed whole fits, if_neg (by omega)]

omit [CaseMapping] fits in
/-- The end marker stands behind the new entries. -/
theorem getElem?_entries_marked_of_le (aligned : entrySize ∣ bytes.length)
    (before : index ≤ first + count) :
    (entries (markedBytes bytes (first * entrySize) group))[index]? = (entries bytes)[index]? := by
  rw [markedBytes]
  split
  · rename_i marked
    rw [marker_eq whole] at marked ⊢
    obtain ⟨_, length⟩ := aligned
    have inside : first + (count + 1) < (entries bytes).length := by
      have below := marked.2
      rw [length, Nat.mul_comm entrySize] at below
      rw [length_entries, length, Nat.mul_div_cancel_left _ (by decide)]
      exact Nat.lt_of_mul_lt_mul_right below
    exact (entries_set inside 0).2.1 index (by omega)
  · rfl

omit [CaseMapping] in
/-- The entries in front of the new ones are as before. -/
theorem getElem?_entries_placed_of_lt (aligned : entrySize ∣ bytes.length)
    (before : index < first) :
    (entries (placedBytes bytes (first * entrySize) group))[index]? = (entries bytes)[index]? := by
  rw [getElem?_entries_placed whole fits, if_neg (by omega),
    getElem?_entries_marked_of_le whole aligned (by omega)]

end Added

/-- The record of new entries: the long-name entries decide its name. -/
def addedRecord [CaseMapping] (bytes : List UInt8) (place : Nat) (entry : List UInt8)
    (kind : Kind) :
    Record :=
  shortRecord kind (pendingAt none 0 (entries bytes) place) place entry

section NewRecord

variable [CaseMapping] {bytes : List UInt8} (name : List Char) {short base extension : List UInt8}
  (padded : Padded short base extension) (cluster size : Nat) {attr : UInt8} (kind : Kind)

include padded

/-- The entries of a new record. -/
theorem getElem?_entrySet (attr : UInt8) :
    (∀ index < longCount name short,
      (entries (entrySet name short cluster size attr kind))[index]? =
        some (longEntry (encodeUtf16 name) (longCount name short) (longCount name short - index)
          (checksum short))) ∧
      (entries (entrySet name short cluster size attr kind))[longCount name short]? =
        some (shortEntry short cluster size attr kind) := by
  rw [entries_entrySet name padded.length]
  constructor
  · intro _ below
    rw [getElem?_append_left (by simpa using below), getElem?_map, getElem?_range below]
    rfl
  · rw [getElem?_append_right (by simp)]
    simp

theorem mark_shortEntry (long : attr ≠ 0x0f) (label : attr &&& 8 = 0) :
    mark (shortEntry short cluster size attr kind) = .short := by
  obtain ⟨attrField, caseField⟩ := field_shortEntry padded.length cluster size attr kind
  have taken : Padded ((shortEntry short cluster size attr kind).take 11) base extension := by
    rw [take_shortEntry padded.length]
    exact padded
  exact mark_of_padded taken caseField (by rw [attrField]; exact long)
    (by rw [attrField]; exact label)

/-- New entries add one record to a directory. -/
theorem mem_records_placed {first : Nat} (aligned : entrySize ∣ bytes.length)
    (valid : validName name = true) (long : attr ≠ 0x0f) (label : attr &&& 8 = 0)
    (found : freeSlots bytes (longCount name short + 1) = some (first * entrySize)) :
    record ∈ records (placedBytes bytes (first * entrySize)
        (entrySet name short cluster size attr kind)) kind ↔ record ∈ records bytes kind ∨
        record = addedRecord (placedBytes bytes (first * entrySize)
          (entrySet name short cluster size attr kind)) (first + longCount name short)
          (shortEntry short cluster size attr kind) kind := by
  have whole := length_entrySet name padded.length cluster size attr kind
  obtain ⟨-, visible, free⟩ := freeSlots_at found
  have fits := freeSlots_room found
  rw [← whole] at fits
  obtain ⟨longs, last⟩ := getElem?_entrySet name padded cluster size kind attr
  have count := longCount_le valid short
  rw [mem_records, mem_records, addedRecord]
  refine slotAt_insert visible (Nat.le_add_right ..) (replaceable_placed whole fits free)
    (fun index below => getElem?_entries_placed_of_lt whole fits aligned below) ?_ ?_
    (mark_shortEntry padded cluster size kind long label)
  · intro index _ _
    refine ⟨_, ?_, mark_longEntry (encodeUtf16 name) (longCount name short) (checksum short)
      (Nat.sub_pos_of_lt (by omega : index - first < longCount name short)) (by omega)⟩
    rw [getElem?_entries_placed whole fits, if_pos (by omega)]
    exact longs (index - first) (by omega)
  · rw [getElem?_entries_placed whole fits, if_pos (by omega), Nat.add_sub_cancel_left]
    exact last

end NewRecord

/-! ### Adding a record -/

/-- A record was added to a directory, which may have grown before. -/
structure Inserted [CaseMapping] (layout : Layout) (dir : Dir) (name : List Char)
    (cluster size : Nat) (attr : UInt8) (before middle after : View) (chain other : List Nat)
    (bytes short : List UInt8) (count place : Nat) : Prop where
  valid : validName name = true
  loaded : layout.DirData before dir chain bytes
  limit : chain.length ≤ maxMetadata / layout.bytes
  absent : findRecord bytes layout.kind name = none
  chosen : shortName name ((records bytes layout.kind).map Record.short) = .ok short
  grows : Grows layout dir before chain middle other
  grown : layout.DirData middle dir other (bytes ++ List.replicate count 0)
  aligned : entrySize ∣ (bytes ++ List.replicate count 0).length
  limitGrown : other.length ≤ maxMetadata / layout.bytes
  room : freeSlots (bytes ++ List.replicate count 0) (longCount name short + 1) =
    some (place * entrySize)
  rewritten : Rewritten layout dir other (placedBytes (bytes ++ List.replicate count 0)
    (place * entrySize) (entrySet name short cluster size attr layout.kind)) middle after

theorem shortName_safe (name : List Char) (taken : List (List UInt8)) :
    shortName name taken ≠ .panic := by
  have search : ∀ steps number base extension,
      searchName base extension taken steps number ≠ .panic := by
    intro steps
    induction steps with
    | zero => exact fun _ _ _ wrong => by cases wrong
    | succ steps ih =>
      intro _ _ _
      rw [searchName]
      split
      · exact ih _ _ _
      · simp
  rw [shortName]
  simp only
  split
  · simp
  · exact search _ _ _ _

theorem validateName_safe (name : List Char) : validateName name ≠ .panic := by
  rw [validateName]
  split <;> exact nofun

theorem validateName_eq_ok {name : List Char} {value : Unit}
    (checked : validateName name = .ok value) :
    validName name = true := by
  rw [validateName] at checked
  split at checked
  · assumption
  · cases checked

theorem insert_meets [CaseMapping] (mounted : Mounted start limit store)
    (reliable : store.disk.Reliable) (dir : Dir) (name : List Char) (cluster size : Nat)
    (attr : UInt8) :
    (insert dir name cluster size attr).Meets store
      (fun _ after => Mounted start limit after ∧ Kept start store after ∧
        ∃ middle chain other bytes short count place,
          Inserted store.volume.toLayout dir name cluster size attr store.view middle after.view
            chain other bytes short count place)
      (fun _ after => Mounted start limit after ∧ Kept start store after ∧
        (after = store ∨ ∃ last new, Lengthened dir last new store after)) := by
  have stay : Mounted start limit store ∧ Kept start store store ∧
      (store = store ∨ ∃ last new, Lengthened dir last new store store) :=
    ⟨mounted, Kept.refl .., Or.inl rfl⟩
  refine .reads (validateName_safe name) (fun _ checked => ?_) fun _ _ => stay
  refine .reads (loadDir_loads mounted.loaded dir).ne_panic
    (fun (chain, bytes) loaded => ?_) fun _ _ => stay
  obtain ⟨data, short⟩ := mounted.loadDir_eq_ok_iff.mp loaded
  refine .gets ?_
  refine .guard stay fun exists_ => ?_
  refine .reads (shortName_safe _ _) (fun chosenName chosen => ?_) fun _ _ => stay
  obtain ⟨whole, needed⟩ := entrySet_chosen chosen cluster size attr store.volume.kind
  simp only [needed]
  have valid := validateName_eq_ok checked
  have few := longCount_le valid chosenName
  refine .bind ((makeRoom_meets mounted reliable data short (by omega) (Nat.succ_pos _)
    (by omega)).loosen ?_) ?_
  · rintro _ _ ⟨mountedAfter, kept, _, cause⟩
    exact ⟨mountedAfter, kept, cause.imp_right And.right⟩
  rintro ⟨_, other, _⟩ middle
    ⟨mountedMiddle, kept, grows, grown, limitGrown, room, count, same⟩
  subst same
  obtain ⟨place, rfl, _⟩ := freeSlots_spec room
  have layout := kept.layout
  refine (placeEntries_meets mountedMiddle.toReady (kept.reliable reliable)
    (by rw [layout]; exact grown) whole ?_).mono ?_ fun _ _ impossible => absurd impossible id
  · rw [whole]
    exact freeSlots_room room
  rintro _ _ ⟨moved, rewritten⟩
  rw [layout] at rewritten
  refine ⟨mountedMiddle.moved moved (by rw [rewritten.entry]), kept.trans moved.kept,
    middle.view, chain, other, bytes, chosenName, count, place, valid, data,
    short, Option.not_isSome_iff_eq_none.mp exists_, chosen, grows, grown, ?_, limitGrown, room,
    rewritten⟩
  rw [← layout] at grown
  exact grown.entrySize_dvd middle.shaped

/-! ### Marking a record as deleted -/

/-- Mark some entries as deleted. -/
def eraseAll (bytes : List UInt8) (indices : List Nat) : List UInt8 :=
  indices.foldl (fun bytes index => bytes.set (index * entrySize) 0xe5) bytes

theorem length_eraseAll (bytes : List UInt8) (indices : List Nat) :
    (eraseAll bytes indices).length = bytes.length := by
  induction indices generalizing bytes with
  | nil => rfl
  | cons index rest ih =>
    exact (ih _).trans length_set

theorem getElem?_eraseAll {offset : Nat} (away : ∀ index ∈ indices, offset ≠ index * entrySize) :
    (eraseAll bytes indices)[offset]? = bytes[offset]? := by
  induction indices generalizing bytes with
  | nil => rfl
  | cons index rest ih =>
    refine (ih (forall_mem_cons.mp away).2).trans ?_
    exact getElem?_set_ne (away index mem_cons_self).symm

theorem entries_eraseAll [CaseMapping]
    (inside : ∀ index ∈ indices, index < (entries bytes).length) :
    (∀ index, index ∉ indices → (entries (eraseAll bytes indices))[index]? =
      (entries bytes)[index]?) ∧
      ∀ index ∈ indices, MarkAt (entries (eraseAll bytes indices)) index .deleted := by
  induction indices generalizing bytes with
  | nil => exact ⟨fun _ _ => rfl, forall_mem_nil _⟩
  | cons first rest ih =>
    obtain ⟨length, others, entry, found, byte⟩ := entries_set (inside first mem_cons_self) 0xe5
    obtain ⟨same, deleted⟩ := ih
      fun index member => length ▸ inside index (mem_cons_of_mem _ member)
    refine ⟨fun index notMember => ?_, fun index member => ?_⟩
    · rw [mem_cons, not_or] at notMember
      exact (same index notMember.2).trans (others index notMember.1)
    · by_cases later : index ∈ rest
      · exact deleted index later
      · have here := (mem_cons.mp member).resolve_right later
        subst here
        exact ⟨entry, (same index later).trans found, mark_eq_deleted.mpr byte⟩

section Erase

variable [CaseMapping] {kind : Kind} {bytes : List UInt8} {position : Nat} {entry : List UInt8}
  {removed : Record}

/-- The entries of a record and how they are marked as deleted. -/
theorem erase_eq (slot : SlotAt kind (entries bytes) position entry removed) :
    ∃ first ≤ position, removed.start = first * entrySize ∧
      erase bytes removed = eraseAll bytes (List.range' first (position + 1 - first)) ∧
      ∀ between, first ≤ between → between < position → MarkAt (entries bytes) between .long := by
  obtain ⟨first, order, start, longs⟩ := slot.start
  refine ⟨first, order, start, ?_, longs⟩
  rw [erase, eraseAll, slot.offset, start, Nat.mul_div_cancel _ (by decide),
    Nat.mul_div_cancel _ (by decide)]

/-- Marking the entries of a record as deleted takes this record out of its directory. -/
theorem mem_records_erase (slot : SlotAt kind (entries bytes) position entry removed) :
    record ∈ records (erase bytes removed) kind ↔
      record ∈ records bytes kind ∧ record.offset ≠ removed.offset := by
  obtain ⟨first, order, _, same, longs⟩ := erase_eq slot
  have bound := (List.getElem?_eq_some_iff.mp slot.found).1
  have range : ∀ index, index ∈ List.range' first (position + 1 - first) ↔
      first ≤ index ∧ index ≤ position := by
    intro index
    rw [mem_range'_1]
    omega
  obtain ⟨others, deleted⟩ := entries_eraseAll
    (show ∀ index ∈ List.range' first (position + 1 - first), index < (entries bytes).length from
      fun index member => by have := (range index).mp member; omega)
  rw [mem_records, mem_records, same]
  have each : ∀ place other, SlotAt kind (entries (eraseAll bytes
      (List.range' first (position + 1 - first)))) place other record ↔
      SlotAt kind (entries bytes) place other record ∧ place ≠ position := fun place other =>
    slotAt_delete slot order longs
      (fun index above below => deleted index ((range index).mpr ⟨above, below⟩))
      (fun index away => others index fun member => by have := (range index).mp member; omega)
  constructor
  · rintro ⟨place, other, erased⟩
    obtain ⟨kept, different⟩ := (each place other).mp erased
    refine ⟨⟨place, other, kept⟩, fun offsets => different ?_⟩
    rw [kept.offset, slot.offset] at offsets
    exact Nat.eq_of_mul_eq_mul_right (by decide) offsets
  · rintro ⟨⟨place, other, kept⟩, different⟩
    refine ⟨place, other, (each place other).mpr ⟨kept, fun here => different ?_⟩⟩
    rw [kept.offset, slot.offset, here]

/-- Storing a directory with a record marked as deleted. -/
theorem storeErased_meets (ready : Ready start limit store) (reliable : store.disk.Reliable)
    (data : store.volume.DirData store.view dir chain bytes)
    (slot : SlotAt kind (entries bytes) position entry removed) :
    (storeDir dir chain (erase bytes removed) removed.start
        (removed.offset + entrySize - removed.start)).Meets store
      (fun _ after => Moved start limit store after ∧
        Rewritten store.volume.toLayout dir chain (erase bytes removed) store.view after.view)
      (fun _ _ => False) := by
  obtain ⟨_, order, begin, same, _⟩ := erase_eq slot
  have inside : position < bytes.length / entrySize :=
    (length_entries bytes) ▸ (List.getElem?_eq_some_iff.mp slot.found).1
  have room := entry_fits inside
  have offset := slot.offset
  have place : removed.start ≤ removed.offset := by
    rw [begin, offset]
    exact Nat.mul_le_mul_right _ order
  have length : (erase bytes removed).length = bytes.length := by rw [same, length_eraseAll]
  refine storeDir_reliable ready reliable data ⟨length, by rw [length]; omega, fun index away => ?_⟩
  rw [same]
  refine getElem?_eraseAll fun other member here => ?_
  rw [mem_range'_1] at member
  rw [begin, offset] at away place
  unfold entrySize at *
  omega

end Erase

end Mmurtl.Fat

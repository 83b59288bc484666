/-
This file proves that the loading of programs leaks nothing: a load that fails leaves the free
frames and the slots as they were, and a load that returns has taken exactly what the release
of its program gives back.
-/

import Mmurtl.User.ElfSafety
import Mmurtl.User.Program
import Mmurtl.User.Spaces

namespace Mmurtl.User

open Frames Tables Transition List

variable {rotate slot offset page bias : Nat} {cur slots : BitVec 64} {data : List UInt8}
  {segment : Segment} {file : File} {image : Image}

/-! ### Slots -/

theorem getLsbD_rotated (bits : BitVec 64) {index : Nat} (small : rotate < 64)
    (inside : index < 64) :
    (bits.rotateRight rotate).getLsbD index = bits.getLsbD ((index + rotate) % 64) := by
  rw [BitVec.getLsbD_rotateRight_of_lt small]
  by_cases early : index < 64 - rotate
  · rw [decide_eq_true early, Nat.mod_eq_of_lt (by omega), Nat.add_comm]
    rfl
  · rw [decide_eq_false early, decide_eq_true inside,
      show (index + rotate) % 64 = index - (64 - rotate) by omega]
    rfl

/-- The slot that is taken was free. -/
theorem slot_free (small : rotate < 64) (room : cur ≠ BitVec.allOnes 64) :
    cur.getLsbD ((((~~~cur).rotateRight rotate).ctz.toNat + rotate) % 64) = false := by
  have free : (~~~cur).rotateRight rotate ≠ 0#64 := by
    intro none_
    refine room (BitVec.eq_of_getLsbD_eq fun index inside => ?_)
    have bit := getLsbD_rotated (~~~cur) small (Nat.mod_lt (index + (64 - rotate)) (by decide))
    rw [none_, show ((index + (64 - rotate)) % 64 + rotate) % 64 = index by omega] at bit
    rw [BitVec.getLsbD_allOnes, decide_eq_true inside]
    simpa [inside] using bit
  have inside : ((~~~cur).rotateRight rotate).ctz.toNat < 64 := by
    have below := BitVec.ctz_lt_iff_ne_zero.mpr free
    simpa [BitVec.lt_def] using below
  have bit := BitVec.getLsbD_true_ctz_of_ne_zero free
  rw [getLsbD_rotated _ small inside, BitVec.getLsbD_not, Bool.and_eq_true,
    Bool.not_eq_true'] at bit
  exact bit.2

/-- Freeing a slot that was taken restores the slots. -/
theorem slots_restored (free : cur.getLsbD slot = false) :
    (cur ||| BitVec.twoPow 64 slot) &&& ~~~BitVec.twoPow 64 slot = cur := by
  refine BitVec.eq_of_getLsbD_eq fun index inside => ?_
  by_cases same : index = slot
  · subst same
    simp [free]
  · simp [same, inside]

/-! ### Pages -/

section Loads

variable {start : FrameAllocator} {root va : Nat} {kernel after : Kernel}
  {fails : String → Kernel → Prop}

/-- Part of a load has been done: the frames taken are those of its address space. -/
def Loading (start : FrameAllocator) (root : Nat) (slots : BitVec 64) (kernel : Kernel) : Prop :=
  kernel.slots = slots ∧ Built start root [] kernel

/-- An address of the user window. -/
def InWindow (va : Nat) : Prop := base ≤ va ∧ va < windowEnd

section

variable (loading : Loading start root slots kernel)
include loading

/-- A new page is mapped, or its frame is given back. -/
theorem mapFrame_meets (window : InWindow va) (fits : offset + data.length ≤ frameSize ∨ data = [])
    (writable executable : Bool) :
    (mapFrame (root * frameSize) va offset data writable executable).Leaves kernel
      (Loading start root slots) := by
  obtain ⟨sameSlots, built⟩ := loading
  have walks := pathOf_mem window.1 window.2
  refine (allocZeroedFrame_meets built).bind ?_
  rintro _ middle (⟨rfl, rfl⟩ | ⟨idx, rfl, takes⟩)
  · exact .fail ⟨sameSlots, built⟩
  · have spares : Spares root kernel middle :=
      takes.spares fun frame listed => mem_append_left _ listed
    refine .changes ?_
    generalize copied : middle.setMemory
      (middle.memory.writeBytes (idx * frameSize + offset) data) =
      written
    have agree : ∀ byte, byte / frameSize ≠ idx → written.memory byte = middle.memory byte := by
      intro byte outside
      rw [← copied]
      refine Memory.writeBytes_of_outside _ ?_
      by_contra inside
      rcases fits with _ | rfl
      · exact outside (div_frameSize (show idx * frameSize ≤ byte by omega) (by omega))
      · exact inside (by simp; omega)
    have away := (nodup_cons.mp takes.holds.distinct).1
    have untouched : Spares root middle written := by
      refine spares_of_agree fun frame listed byte inFrame => agree byte ?_
      rintro rfl
      have inFrame : byte / frameSize = frame := inFrame
      rw [inFrame, append_nil, ← spares.owned] at away
      exact away listed
    have builtNow : Built start root [idx] written := by
      have holds : Holds start (idx :: owned kernel.memory root) written.frames := by
        have taken := takes.holds
        rw [append_nil] at taken
        rw [← copied]
        refine taken.write fun byte outside => ?_
        have same := agree byte fun wrong => outside (wrong ▸ mem_cons_self)
        rw [← copied] at same
        exact same
      rw [Built, untouched.owned, spares.owned]
      exact holds.perm (perm_append_singleton _ _).symm
    have slotsNow : written.slots = slots := by
      rw [← copied]
      exact takes.slots.trans sameSlots
    refine ((mapUserPage_meets builtNow walks writable executable).imp ?_).handle ?_
    · rintro _ last ⟨same, built⟩
      exact ⟨same.trans slotsNow, built⟩
    · rintro _ last ⟨same, built⟩
      have loose : Holds start (idx :: owned last.memory root) last.frames :=
        Holds.perm built (perm_append_singleton _ _)
      have notOwned := (nodup_cons.mp loose.distinct).1
      refine (freeFrame_meets loose).bind ?_
      rintro _ final ⟨sameFinal, holds, agreeFinal⟩
      have kept : Spares root last final := by
        refine spares_of_agree fun frame listed byte inFrame => agreeFinal byte ?_
        rintro rfl
        have inFrame : byte / frameSize = frame := inFrame
        exact notOwned (inFrame ▸ listed)
      refine .fail ⟨sameFinal.trans (same.trans slotsNow), ?_⟩
      rw [Built, kept.owned, append_nil]
      exact holds

theorem mapFresh_meets (window : InWindow va) (data : List UInt8) (offset : Nat)
    (writable executable : Bool) :
    (mapFresh (root * frameSize) va data offset writable executable).Leaves kernel
      (Loading start root slots) := by
  refine mapFrame_meets loading window ?_ writable executable
  have size : pageSize = frameSize := rfl
  rw [length_take, size]
  by_cases inside : offset ≤ frameSize
  · exact Or.inl (by omega)
  · refine Or.inr ?_
    rw [Nat.min_eq_right (by omega), Nat.sub_self, take_zero]

/-- What is loaded page by page. -/
theorem forEach_loading {β : Type} {items : List β} {body : β → Load Unit}
    (step : ∀ item ∈ items, ∀ before, Loading start root slots before →
      (body item).Leaves before (Loading start root slots)) :
    (Program.forEach items body).Leaves kernel (Loading start root slots) := by
  refine (Program.Meets.forEach (fun rest after => (∀ item ∈ rest, item ∈ items) ∧
    Loading start root slots after) ⟨fun _ => id, loading⟩ ?_).imp fun _ _ kept => kept.2
  rintro item _ before ⟨inside, loading⟩
  obtain ⟨here, later⟩ := forall_mem_cons.mp inside
  exact (step item here before loading).imp fun _ _ kept => ⟨later, kept⟩

end

theorem inWindow_of_stack {code stack sp : Nat} (listed : page ∈ (choose code stack sp).stack) :
    InWindow page := by
  obtain ⟨low, high⟩ := stack_bounds (Or.inl listed)
  refine ⟨Nat.le_trans (Nat.le_add_right ..) low, ?_⟩
  unfold pageSize at high
  omega

/-! ### Programs -/

theorem populate_meets (loading : Loading start root slots kernel) (slot : Nat)
    {code : List UInt8} {codePages : Nat} (small : codePages * pageSize ≤ maxFlatImage)
    (draws : Draws) :
    (populate (root * frameSize) slot code codePages draws).Meets kernel
      (fun image after => image.space = root * frameSize ∧ image.slot = slot ∧
        Loading start root slots after) fun _ => Loading start root slots := by
  unfold populate
  refine .bind (forEach_loading loading fun i listed before here => ?_)
    fun _ middle loading => ?_
  · have window : InWindow ((choose draws.code draws.stack draws.sp).bias + codeOffset +
        i * pageSize) := by
      have low := base_le_bias draws.code draws.stack draws.sp
      have high := bias_le draws.code draws.stack draws.sp
      have inside := mem_range.mp listed
      generalize (choose draws.code draws.stack draws.sp).bias = bias at *
      unfold maxFlatImage pageSize at small
      unfold InWindow windowEnd codeOffset
      generalize base = window at *
      unfold pageSize at *
      omega
    exact mapFresh_meets here window _ 0 false true
  · refine .bind (forEach_loading loading fun page listed before here =>
      mapFresh_meets here (inWindow_of_stack listed) _ _ _ _) fun _ after loading => ?_
    exact .pure ⟨rfl, rfl, loading⟩

/-- The data of a page fits in it. -/
theorem pageData_fits (read : segment.pageData file page = .ok (offset, data)) :
    offset + data.length ≤ frameSize ∨ data = [] := by
  unfold Segment.pageData at read
  dsimp only at read
  split at read
  case isFalse =>
    cases read
    exact Or.inr rfl
  case isTrue part =>
    split at read
    case isFalse => cases read
    case isTrue inFile =>
      cases read
      left
      rw [Bytes.length_slice inFile]
      have size : pageSize = frameSize := rfl
      omega

/-- Mapping one page of a segment. -/
theorem loadPage_meets (loading : Loading start root slots kernel)
    (window : InWindow (bias + page)) (reads : ∃ data, segment.pageData file page = .ok data) :
    (loadPage (root * frameSize) bias file image segment page).Leaves kernel
      (Loading start root slots) := by
  obtain ⟨⟨_, _⟩, read⟩ := reads
  refine .reads (by rw [read]; exact nofun) (fun found same => ?_) fun reason wrong => ?_
  · rw [read] at same
    cases same
    exact mapFrame_meets loading window (pageData_fits read) _ _
  · rw [read] at wrong
    cases wrong

theorem populateElf_meets (loading : Loading start root slots kernel) (slot : Nat)
    {layout : Layout} (draws : Draws) (loadable : image.Loadable file layout bias)
    (stackWindow : ∀ page ∈ layout.stack, InWindow page) :
    (populateElf (root * frameSize) slot bias file image layout draws).Meets kernel
      (fun image after => image.space = root * frameSize ∧ image.slot = slot ∧
        Loading start root slots after) fun _ => Loading start root slots := by
  unfold populateElf
  generalize layout.stack = pages at stackWindow ⊢
  refine .bind (forEach_loading loading fun segment segmentListed before here =>
    forEach_loading here fun page paged before here => ?_) fun _ first loading => ?_
  · obtain ⟨low, high⟩ := loadable.inside segment segmentListed page paged
    refine loadPage_meets here ⟨low, ?_⟩ (loadable.slices segment segmentListed page paged)
    unfold imageLimit pageSize at high
    unfold windowEnd
    omega
  · refine .bind (forEach_loading loading fun relocation listed before here => ?_)
      fun _ second loading => ?_
    · obtain ⟨_, addend, rfl, _⟩ := loadable.targets relocation listed
      refine (relocatePrivateData_meets here.2 (bias + addend)).mono ?_ ?_
      · exact fun _ after kept => ⟨kept.1.trans here.1, kept.2⟩
      · exact fun _ after kept => ⟨kept.1.trans here.1, kept.2⟩
    · refine .bind (forEach_loading loading fun page listed before here => ?_)
        fun _ after loading => ?_
      · split
        · exact mapFresh_meets here (stackWindow page listed) _ _ _ _
        · exact mapFresh_meets here (stackWindow page listed) _ _ _ _
      · exact .pure ⟨rfl, rfl, loading⟩

/-! ### Release -/

theorem release_meets (holds : Holds start (owned kernel.memory root) kernel.frames) (slot : Nat) :
    (release (root * frameSize) slot).Meets kernel
      (fun freed after => freed = (owned kernel.memory root).length ∧
        after.frames.bitmap = start.bitmap ∧
        after.slots = kernel.slots &&& ~~~BitVec.twoPow 64 slot)
      fails := by
  rw [← append_nil (owned kernel.memory root)] at holds
  refine (freeAddressSpace_meets holds).bind ?_
  rintro freed after ⟨counted, returned⟩
  refine .changes (.pure ⟨counted, returned.holds.bitmap_eq, ?_⟩)
  rw [returned.slots]

/-! ### Loads -/

/-- The free frames and the slots are the same in two states. -/
structure Unchanged (before after : Kernel) : Prop where
  bitmap : after.frames.bitmap = before.frames.bitmap
  slots : after.slots = before.slots

/-- A program that was loaded has taken some frames and a slot. Releasing it restores both, and
releasing it later, whatever else has happened, gives back exactly them, as long as its page
tables were left alone. -/
structure Releasable (before : Kernel) (image : UserImage) (after : Kernel) (root : Nat)
    (taken : List Nat) : Prop where
  space : image.space = root * frameSize
  distinct : taken.Nodup
  consumed : ∀ idx, idx ∈ taken ↔
    before.frames.bitmap idx = false ∧ after.frames.bitmap idx = true
  restores : (release image.space image.slot).Meets after
    (fun freed last => freed = taken.length ∧ Unchanged before last) fun _ _ => False
  later : ∀ other : Kernel, Books Addressable other.frames →
    other.frames.totalFrames = after.frames.totalFrames →
    (∀ idx ∈ taken, other.frames.bitmap idx = true) →
    (∀ table ∈ pageTables.tables after.memory 4 root,
      pageTables.AgreeAt after.memory other.memory table) →
    (release image.space image.slot).Meets other
      (fun freed last => freed = taken.length ∧
        (∀ idx, last.frames.bitmap idx = (other.frames.bitmap idx && !decide (idx ∈ taken))) ∧
        last.slots = other.slots &&& ~~~BitVec.twoPow 64 image.slot)
      fun _ _ => False

/-- A load that fails changes nothing, and one that returns can be undone. -/
def LeaksNothing (load : Load UserImage) (kernel : Kernel) : Prop :=
  load.Meets kernel (fun image after => ∃ root taken, Releasable kernel image after root taken)
    fun _ after => Unchanged kernel after

/-- The frames of an address space, as taken from a later state. -/
theorem holds_later {taken : List Nat} (holds : Holds start taken after.frames) {other : Kernel}
    (books : Books Addressable other.frames)
    (total : other.frames.totalFrames = after.frames.totalFrames)
    (used : ∀ idx ∈ taken, other.frames.bitmap idx = true) :
    Holds { other.frames with
        bitmap := fun idx => other.frames.bitmap idx && !decide (idx ∈ taken) }
      taken other.frames where
  books := books
  distinct := holds.distinct
  free idx listed := by simp [listed]
  bitmap idx := by
    by_cases listed : idx ∈ taken
    · simp [listed, used idx listed]
    · simp [listed]
  total := rfl
  small idx listed := by
    rw [total]
    exact holds.small idx listed

theorem releasable_of_loading {image : UserImage} (root : Nat)
    (space : image.space = root * frameSize)
    (free : kernel.slots.getLsbD image.slot = false)
    (loading : Loading kernel.frames root (kernel.slots ||| BitVec.twoPow 64 image.slot) after) :
    Releasable kernel image after root (owned after.memory root) := by
  obtain ⟨slots, built⟩ := loading
  have holds : Holds kernel.frames (owned after.memory root) after.frames := by
    rw [Built, append_nil] at built
    exact built
  refine ⟨space, holds.distinct, fun idx => ⟨fun listed => ?_, fun taken => ?_⟩, ?_, ?_⟩
  · exact ⟨holds.free idx listed, holds.used listed⟩
  · have now := taken.2
    rw [holds.bitmap idx, taken.1, Bool.false_or] at now
    exact of_decide_eq_true now
  · rw [space]
    refine (release_meets holds image.slot).imp ?_
    rintro freed last ⟨counted, bitmap, lastSlots⟩
    refine ⟨counted, bitmap, ?_⟩
    rw [lastSlots, slots]
    exact slots_restored free
  · intro other books total used tables
    have same : owned other.memory root = owned after.memory root := owned_congr tables
    have later := holds_later holds books total used
    rw [← same] at later
    rw [space, ← same]
    refine (release_meets later image.slot).imp ?_
    rintro _ _ ⟨counted, bitmap, lastSlots⟩
    exact ⟨counted, fun idx => congrFun bitmap idx, lastSlots⟩

theorem allocSlot_meets (kernel : Kernel) (random : Nat) :
    (allocSlot random).Meets kernel (fun found after => (found = none ∧ after = kernel) ∨
        ∃ slot, found = some slot ∧ kernel.slots.getLsbD slot = false ∧
          after = { kernel with slots := kernel.slots ||| BitVec.twoPow 64 slot })
      fails := by
  refine .gets ?_
  refine .ite (fun full => ?_) fun full => ?_
  · exact .pure (Or.inl ⟨rfl, rfl⟩)
  · have free := slot_free (Nat.mod_lt random (by decide)) full
    exact .changes (.pure (Or.inr ⟨_, rfl, free, rfl⟩))

/-- A slot and an empty address space. -/
theorem newSpace_meets (books : Books Addressable kernel.frames) (kernelRoot : Nat)
    (draws : Draws) :
    (newSpace kernelRoot draws).Meets kernel
      (fun found after => ∃ root, found.1 = root * frameSize ∧
        kernel.slots.getLsbD found.2 = false ∧
        Loading kernel.frames root (kernel.slots ||| BitVec.twoPow 64 found.2) after)
      fun _ after => Unchanged kernel after := by
  refine (allocSlot_meets kernel draws.slot).bind ?_
  rintro _ _ (⟨rfl, rfl⟩ | ⟨slot, rfl, free, rfl⟩)
  · exact .fail ⟨rfl, rfl⟩
  · refine .bind (?_ : Program.Meets _ _ (fun space after => ∃ root, space = root * frameSize ∧
      Loading kernel.frames root (kernel.slots ||| BitVec.twoPow 64 slot) after) _) ?_
    · have holds : Holds kernel.frames []
          (Kernel.mk kernel.frames (kernel.slots ||| BitVec.twoPow 64 slot)).frames :=
        Holds.refl books
      refine Program.Meets.handle ((newAddressSpace_meets holds kernelRoot).imp ?_) ?_
      · rintro space after ⟨slots, root, rfl, built⟩
        exact ⟨root, rfl, slots, built⟩
      · rintro _ after rfl
        exact .changes (.fail ⟨rfl, slots_restored free⟩)
    · rintro _ _ ⟨root, rfl, loading⟩
      exact .pure ⟨root, rfl, free, loading⟩

/-- Undoing a load that failed. -/
theorem undo_meets (free : kernel.slots.getLsbD slot = false)
    (loading : Loading kernel.frames root (kernel.slots ||| BitVec.twoPow 64 slot) after)
    (reason : String) :
    (do
      let _ ← release (root * frameSize) slot
      Program.fail reason : Load UserImage).Meets after
      (fun image last => ∃ root taken, Releasable kernel image last root taken)
      fun _ last => Unchanged kernel last := by
  obtain ⟨slots, built⟩ := loading
  rw [Built, append_nil] at built
  refine (release_meets built slot).bind ?_
  rintro _ _ ⟨_, bitmap, lastSlots⟩
  refine .fail ⟨bitmap, ?_⟩
  rw [lastSlots, slots]
  exact slots_restored free

theorem loadProgram_leaksNothing (books : Books Addressable kernel.frames) (kernelRoot : Nat)
    (code : List UInt8) (draws : Draws) :
    LeaksNothing (loadProgram kernelRoot code draws) kernel := by
  unfold LeaksNothing loadProgram
  dsimp only
  split
  case isTrue => exact .fail ⟨rfl, rfl⟩
  case isFalse allowed =>
    rw [not_or, Nat.not_lt] at allowed
    refine (newSpace_meets books kernelRoot draws).bind ?_
    rintro ⟨space, slot⟩ _ ⟨root, rfl, free, loading⟩
    refine ((populate_meets loading slot allowed.2 draws).imp ?_).handle
      fun reason after loading => undo_meets free loading reason
    rintro _ _ ⟨space, rfl, loading⟩
    exact ⟨root, _, releasable_of_loading root space free loading⟩

theorem loadElf_leaksNothing (books : Books Addressable kernel.frames) (kernelRoot : Nat)
    (file : File) (draws : Draws) : LeaksNothing (loadElf kernelRoot file draws) kernel := by
  unfold LeaksNothing loadElf
  have safe := parse_safe file elfMachine
  generalize parse file elfMachine base imageLimit = parsed at safe ⊢
  cases safe with
  | error reason => exact .of_error rfl ⟨rfl, rfl⟩
  | pure valid =>
    rename_i image
    obtain ⟨_, placed, loadable⟩ := valid.loadable draws.code draws.stack draws.sp
    refine .reads nofun (fun found same => ?_) nofun
    cases same
    refine .reads (by rw [placed]; exact nofun) (fun found same => ?_) fun reason wrong => ?_
    · rw [placed] at same
      cases same
      refine (newSpace_meets books kernelRoot draws).bind ?_
      rintro ⟨space, slot⟩ _ ⟨root, rfl, free, loading⟩
      refine ((populateElf_meets loading slot draws loadable fun page =>
        inWindow_of_stack).imp ?_).handle
        fun reason after loading => undo_meets free loading reason
      rintro _ _ ⟨space, rfl, loading⟩
      exact ⟨root, _, releasable_of_loading root space free loading⟩
    · rw [placed] at wrong
      cases wrong

end Loads

/-- The frames of the allocator can be addressed by entries. -/
theorem books_addressable {usable reserved : List PhysRange} {world : World}
    (kept : Kept usable reserved world) : Books Addressable world.frames where
  good idx free := by
    obtain ⟨inside, suitable⟩ := kept.books.good idx free
    obtain ⟨range, _, _, high⟩ := suitable.inside
    have bounded := range.bounded
    refine ⟨inside, ?_⟩
    unfold Addressable
    unfold frameSize at high
    omega
  counted := kept.books.counted
  zero := kept.books.zero

/-- **Loading leaks nothing**: in every state of the allocator, whatever the program, the random
words and the free frames are, a load that fails leaves the free frames and the slots as they
were, and what a load has taken is given back by the release of its program. -/
theorem loading_leaks_nothing (usable reserved : List PhysRange) (minAddr : Nat) (world : World)
    (reachable : Reachable (frameSystem usable reserved minAddr) world) (slots : BitVec 64)
    (kernelRoot : Nat) (draws : Draws) :
    (∀ code, LeaksNothing (loadProgram kernelRoot code draws) ⟨world.frames, slots⟩) ∧
      ∀ file, LeaksNothing (loadElf kernelRoot file draws) ⟨world.frames, slots⟩ := by
  have books := books_addressable (kept_of_reachable reachable)
  exact ⟨fun code => loadProgram_leaksNothing books kernelRoot code draws,
    fun file => loadElf_leaksNothing books kernelRoot file draws⟩

theorem loading_leaks_nothing_small :
    (∀ code, LeaksNothing (loadProgram 8192 code ⟨1, 2, 3, 4, 5⟩) ⟨twoClaimed.frames, 5#64⟩) ∧
      ∀ file, LeaksNothing (loadElf 8192 file ⟨1, 2, 3, 4, 5⟩) ⟨twoClaimed.frames, 5#64⟩ :=
  loading_leaks_nothing smallMemory firstFrame 100 twoClaimed
    (.step (.init ⟨rfl, _, init_smallFrames⟩) (.claim 2105344 2) ⟨trivial, rfl⟩) 5#64 8192
    ⟨1, 2, 3, 4, 5⟩

end Mmurtl.User

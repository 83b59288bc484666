/-
This file proves what address spaces do to the allocator of frames. The frames a load has taken
are those of its tree of tables and those it has not linked yet, each exactly once; mapping a
page adds to the tree what it takes, and tearing the tree down frees all of it.
-/

import Mmurtl.Library.Tables
import Mmurtl.Memory.FrameRuns
import Mmurtl.User.Pages

namespace Mmurtl.User

open Frames Tables List

variable {frame flags idx depth table word level : Nat} {memory : Memory}
  {frames start : FrameAllocator} {others taken : List Nat}

/-! ### Entries -/

theorem and_pteAddr (word : Nat) : word &&& pteAddr = word / 4096 % 2 ^ 40 * 4096 := by
  have mask : pteAddr = (2 ^ 40 - 1) * 2 ^ 12 := by decide
  refine Nat.eq_of_testBit_eq fun bit => ?_
  rw [Nat.testBit_and, mask, Nat.testBit_mul_two_pow, Nat.testBit_two_pow_sub_one,
    show 4096 = 2 ^ 12 from rfl, Nat.testBit_mul_two_pow, Nat.testBit_mod_two_pow,
    Nat.testBit_div_two_pow]
  by_cases low : 12 ≤ bit
  · rw [show bit - 12 + 12 = bit by omega]
    simp [low, Bool.and_comm]
  · simp [low]

theorem mem_tableEntries {index : Nat} : index ∈ tableEntries ↔ index < 512 := by
  unfold tableEntries
  exact mem_range

theorem nodup_tableEntries : tableEntries.Nodup := by
  unfold tableEntries
  exact nodup_range

/-- The tables of a program: the root is only used for the user window. -/
def pageTables : Format where
  size := frameSize
  indices depth := if depth = 4 then [userPml4Slot] else tableEntries
  present word := decide (word &&& ptePresent ≠ 0)
  frame word := word / 4096 % 2 ^ 40
  distinct depth := by
    split
    · exact List.nodup_singleton _
    · exact nodup_tableEntries
  inside depth index used := by
    split at used
    · rw [List.mem_singleton.mp used]
      decide
    · have below := mem_tableEntries.mp used
      unfold frameSize
      omega

theorem and_pteAddr_eq (word : Nat) : word &&& pteAddr = pageTables.frame word * frameSize :=
  and_pteAddr word

/-- An entry that refers to a frame, with some flags outside the address. -/
structure Refers (word frame : Nat) : Prop where
  fits : word < 2 ^ 64
  present : pageTables.present word = true
  frame : pageTables.frame word = frame

theorem refers_or (small : frame < 2 ^ 40) (fits : flags < 2 ^ 64)
    (present : flags &&& ptePresent ≠ 0) (clear : flags &&& pteAddr = 0) :
    Refers (frame * frameSize ||| flags) frame := by
  have address : frame * frameSize &&& pteAddr = frame * frameSize := by
    rw [and_pteAddr]
    unfold frameSize
    omega
  have bound : frame * frameSize < 2 ^ 64 := by
    unfold frameSize
    omega
  refine ⟨Nat.or_lt_two_pow bound fits, ?_, ?_⟩
  · refine decide_eq_true fun none_ => present ?_
    rw [Nat.and_or_distrib_right] at none_
    exact (Nat.or_eq_zero_iff.mp none_).2
  · have whole : (frame * frameSize ||| flags) &&& pteAddr = frame * frameSize := by
      rw [Nat.and_or_distrib_right, clear, Nat.or_zero, address]
    rw [and_pteAddr_eq] at whole
    exact Nat.eq_of_mul_eq_mul_right (Nat.succ_pos 4095) whole

theorem refers_table (small : frame < 2 ^ 40) :
    Refers (frame * frameSize ||| ptePresent ||| pteWritable ||| pteUser) frame := by
  rw [Nat.or_assoc, Nat.or_assoc]
  exact refers_or small (by decide) (by decide) (by decide)

theorem refers_page (small : frame < 2 ^ 40) (writable executable : Bool) :
    Refers (pageEntry (frame * frameSize) writable executable) frame := by
  have address : frame * frameSize &&& pteAddr = frame * frameSize := by
    rw [and_pteAddr]
    unfold frameSize
    omega
  unfold pageEntry
  rw [address]
  cases writable <;> cases executable <;>
    simp only [Bool.false_eq_true, if_false, if_true, Nat.or_assoc] <;>
    exact refers_or small (by decide) (by decide) (by decide)

/-! ### Paths -/

/-- The entries a walk to an address passes. -/
def pathOf (va depth : Nat) : Nat := tableIndex va (depth - 1)

theorem tableIndex_lt (va level : Nat) : tableIndex va level < 512 :=
  Nat.and_lt_two_pow (n := 9) _ (by decide)

/-- The walks to addresses under one entry of the root pass that entry. -/
theorem tableIndex_mem {va slot : Nat} (under : va / 2 ^ 39 % 512 = slot) (depth : Nat) :
    tableIndex va depth ∈ if depth + 1 = 4 then [slot] else tableEntries := by
  split
  case isTrue root =>
    have root : depth = 3 := by omega
    rw [root, mem_singleton, tableIndex, Nat.shiftRight_eq_div_pow, ← under]
    exact Nat.and_two_pow_sub_one_eq_mod _ 9
  case isFalse => exact mem_tableEntries.mpr (tableIndex_lt va depth)

/-- The walks to addresses of the user window stay in the part of the tables that is private. -/
theorem pathOf_mem {va : Nat} (low : base ≤ va) (high : va < windowEnd) (depth : Nat) :
    pathOf va (depth + 1) ∈ pageTables.indices (depth + 1) := by
  unfold base at low
  unfold windowEnd base at high
  exact tableIndex_mem (show va / 2 ^ 39 % 512 = 200 by omega) depth

/-! ### Frames that are taken -/

/-- A frame that an entry can refer to. -/
def Addressable (idx : Nat) : Prop := idx < 2 ^ 40

/-- Some frames, each once, have been taken since a state of the allocator. -/
structure Holds (start : FrameAllocator) (taken : List Nat) (now : FrameAllocator) : Prop where
  books : Books Addressable now
  distinct : taken.Nodup
  free : ∀ idx ∈ taken, start.bitmap idx = false
  bitmap : ∀ idx, now.bitmap idx = (start.bitmap idx || decide (idx ∈ taken))
  total : now.totalFrames = start.totalFrames
  small : ∀ idx ∈ taken, idx < now.totalFrames ∧ Addressable idx

namespace Holds

variable {start now : FrameAllocator} {taken : List Nat}

theorem refl (books : Books Addressable start) : Holds start [] start :=
  ⟨books, .nil, nofun, fun _ => by simp, rfl, nofun⟩

section

variable (holds : Holds start taken now)
include holds

theorem perm {other : List Nat} (same : taken.Perm other) : Holds start other now where
  books := holds.books
  distinct := same.nodup_iff.mp holds.distinct
  free idx listed := holds.free idx (same.mem_iff.mpr listed)
  bitmap idx := by rw [holds.bitmap idx, decide_eq_decide.mpr same.mem_iff]
  total := holds.total
  small idx listed := holds.small idx (same.mem_iff.mpr listed)

theorem used (listed : idx ∈ taken) : now.bitmap idx = true := by
  rw [holds.bitmap idx, decide_eq_true listed, Bool.or_true]

/-- Frames that are in use may be written to. -/
theorem store
    (agree : ∀ byte, now.bitmap (byte / frameSize) = false → memory byte = now.memory byte) :
    Holds start taken { now with memory := memory } where
  books := {
    good := holds.books.good
    counted := holds.books.counted
    zero := fun idx known => by
      obtain ⟨free, zero⟩ := holds.books.zero idx known
      refine ⟨free, zero.congr fun byte low high => agree byte ?_⟩
      rw [div_frameSize low high]
      exact free }
  distinct := holds.distinct
  free := holds.free
  bitmap := holds.bitmap
  total := holds.total
  small := holds.small

/-- Frames that are taken may be written to. -/
theorem write (agree : ∀ byte, byte / frameSize ∉ taken → memory byte = now.memory byte) :
    Holds start taken { now with memory := memory } := by
  refine holds.store fun byte free => agree byte fun listed => ?_
  rw [holds.used listed] at free
  cases free

end

/-- Nothing is taken any more. -/
theorem bitmap_eq (holds : Holds start [] now) : now.bitmap = start.bitmap := by
  funext idx
  rw [holds.bitmap idx]
  simp

end Holds

/-- One frame more has been taken: it is zero, and the rest of the memory has not changed. -/
structure Grows (start : FrameAllocator) (taken : List Nat) (before : FrameAllocator) (idx : Nat)
    (after : FrameAllocator) : Prop where
  holds : Holds start (idx :: taken) after
  zero : after.memory.ZeroOn (idx * frameSize) frameSize
  agree : ∀ byte, byte / frameSize ≠ idx → after.memory byte = before.memory byte

theorem allocateZeroedFrame_grows (holds : Holds start taken frames) :
    FrameAllocator.allocateZeroedFrame.Meets frames
      (fun found after => (found = none ∧ after = frames) ∨
        ∃ idx, found = some (idx * frameSize) ∧ Grows start taken frames idx after)
      fun _ _ => False := by
  refine (Program.Meets.gets (allocateFrom_meets holds.books _ _ _ 0)).imp ?_
  rintro _ _ ⟨frame, rfl, ⟨rfl, rfl⟩ | ⟨first, marked, last, rfl, free, holdsMarked, rfl⟩⟩
  · exact Or.inl ⟨rfl, rfl⟩
  · have listed : first ∈ List.range' first 1 := mem_singleton.mpr rfl
    have unused := free first listed
    have books := holds.books.marked holdsMarked nodup_range' free last
    have fine := holds.books.good first unused
    have notTaken : start.bitmap first = false ∧ first ∉ taken := by
      rw [holds.bitmap first, Bool.or_eq_false_iff, decide_eq_false_iff_not] at unused
      exact unused
    refine Or.inr ⟨first, rfl, ?_, holdsMarked.zero first listed, fun byte other => ?_⟩
    · refine ⟨books, nodup_cons.mpr ⟨notTaken.2, holds.distinct⟩, ?_, ?_, ?_, ?_⟩
      · intro idx inList
        rcases mem_cons.mp inList with rfl | old
        · exact notTaken.1
        · exact holds.free idx old
      · intro idx
        rw [holdsMarked.bitmap idx, holds.bitmap idx]
        simp [mem_cons, Bool.or_assoc, Bool.or_comm]
      · exact holdsMarked.totalFrames.trans holds.total
      · intro idx inList
        rw [holdsMarked.totalFrames]
        rcases mem_cons.mp inList with rfl | old
        · exact fine
        · exact holds.small idx old
    · refine holdsMarked.agree byte fun wrong => other ?_
      rw [mem_singleton.mp wrong]

/-- A frame that was taken is given back. -/
theorem deallocateFrame_shrinks (holds : Holds start (idx :: taken) frames) :
    (FrameAllocator.deallocateFrame (idx * frameSize)).Meets frames
      (fun _ after => Holds start taken after ∧
        ∀ byte, byte / frameSize ≠ idx → after.memory byte = frames.memory byte)
      fun _ _ => False := by
  have first : idx ∈ idx :: taken := mem_cons_self
  obtain ⟨inside, small⟩ := holds.small idx first
  obtain ⟨away, distinct⟩ := nodup_cons.mp holds.distinct
  refine (deallocateFrame_meets holds.books (holds.used first) inside small).imp ?_
  rintro _ after ⟨books, bitmap, total, _, agree⟩
  refine ⟨⟨books, distinct, ?_, ?_, total.trans holds.total, ?_⟩, agree⟩
  · exact (forall_mem_cons.mp holds.free).2
  · intro other
    rw [bitmap]
    by_cases same : other = idx
    · subst same
      rw [Function.update_self, holds.free other first, decide_eq_false away]
      rfl
    · rw [Function.update_of_ne same, holds.bitmap other]
      simp [same]
  · intro other listed
    rw [total]
    exact holds.small other (mem_cons_of_mem _ listed)

/-- One frame more has been taken: it is zero, and nothing else has changed. -/
structure Takes (start : FrameAllocator) (taken : List Nat) (before : Kernel) (idx : Nat)
    (after : Kernel) : Prop where
  slots : after.slots = before.slots
  holds : Holds start (idx :: taken) after.frames
  zero : after.memory.ZeroOn (idx * frameSize) frameSize
  agree : ∀ byte, byte / frameSize ≠ idx → after.memory byte = before.memory byte

variable {kernel : Kernel} {fails : String → Kernel → Prop}

theorem allocZeroedFrame_meets (holds : Holds start taken kernel.frames) :
    allocZeroedFrame.Meets kernel (fun found after => (found = none ∧ after = kernel) ∨
        ∃ idx, found = some (idx * frameSize) ∧ Takes start taken kernel idx after)
      fails := by
  refine .within ((allocateZeroedFrame_grows holds).imp ?_)
  rintro _ _ (⟨rfl, rfl⟩ | ⟨idx, rfl, grows⟩)
  · exact Or.inl ⟨rfl, rfl⟩
  · exact Or.inr ⟨idx, rfl, rfl, grows.holds, grows.zero, grows.agree⟩

/-- A frame that was taken is given back. -/
theorem freeFrame_meets (holds : Holds start (idx :: taken) kernel.frames) :
    (freeFrame (idx * frameSize)).Meets kernel
      (fun _ after => after.slots = kernel.slots ∧ Holds start taken after.frames ∧
        ∀ byte, byte / frameSize ≠ idx → after.memory byte = kernel.memory byte)
      fails := by
  refine .within ((deallocateFrame_shrinks holds).imp ?_)
  rintro _ _ ⟨given, agree⟩
  exact ⟨rfl, given, agree⟩

/-! ### Address spaces -/

/-- The frames of an address space: its pages and tables, and the root. -/
def owned (memory : Memory) (root : Nat) : List Nat := pageTables.below memory 4 root ++ [root]

/-- Since some state, the frames of an address space and some loose ones have been taken. -/
def Built (start : FrameAllocator) (root : Nat) (loose : List Nat) (kernel : Kernel) : Prop :=
  Holds start (owned kernel.memory root ++ loose) kernel.frames

section Spaces

variable {start : FrameAllocator} {root va : Nat} {loose : List Nat} {after : Kernel}

theorem mem_owned :
    frame ∈ owned memory root ↔ frame = root ∨ frame ∈ pageTables.below memory 4 root := by
  rw [owned, mem_append, mem_singleton, or_comm]

theorem owned_congr {other : Memory}
    (agree : ∀ frame ∈ pageTables.tables memory 4 root, pageTables.AgreeAt memory other frame) :
    owned other root = owned memory root := by
  rw [owned, owned, Format.below_congr agree]

theorem Built.exclusive (built : Built start root loose kernel) :
    Format.Exclusive pageTables kernel.memory 4 root :=
  List.Nodup.of_append_left built.distinct

/-- What does not touch the frames of an address space. -/
structure Spares (root : Nat) (before after : Kernel) : Prop where
  owned : owned after.memory root = owned before.memory root
  agree : ∀ frame ∈ User.owned before.memory root,
    pageTables.AgreeAt before.memory after.memory frame

theorem spares_of_agree (agree : ∀ frame ∈ owned kernel.memory root,
    pageTables.AgreeAt kernel.memory after.memory frame) : Spares root kernel after := by
  refine ⟨owned_congr fun frame listed => agree frame ?_, agree⟩
  exact mem_owned.mpr (Format.mem_of_mem_tables listed)

theorem Spares.reaches (spares : Spares root kernel after) (walks : pageTables.Along (pathOf va))
    (reaches : pageTables.Reaches kernel.memory (pathOf va) depth table 4 root) :
    pageTables.Reaches after.memory (pathOf va) depth table 4 root :=
  reaches.congr walks fun frame listed =>
    spares.agree frame (mem_owned.mpr (Format.mem_of_mem_tables listed))

theorem Takes.spares (takes : Takes start taken kernel idx after)
    (inside : ∀ frame ∈ owned kernel.memory root, frame ∈ taken) : Spares root kernel after := by
  refine spares_of_agree fun frame listed byte inFrame => takes.agree byte ?_
  have away := (nodup_cons.mp takes.holds.distinct).1
  rintro same
  have inFrame : byte / frameSize = frame := inFrame
  rw [← same, inFrame] at away
  exact away (inside frame listed)

/-- Linking a loose frame at the end of a walk makes it part of the address space. -/
theorem link {other : Memory}
    (holds : Holds start (frame :: (owned kernel.memory root ++ loose)) kernel.frames)
    (walks : pageTables.Along (pathOf va))
    (reaches : pageTables.Reaches kernel.memory (pathOf va) (depth + 1) table 4 root)
    (absent : pageTables.present
      (pageTables.entry kernel.memory table (pathOf va (depth + 1))) = false)
    (empty : pageTables.below kernel.memory depth frame = []) (refers : Refers word frame)
    (written : Format.Written pageTables kernel.memory table (pathOf va (depth + 1)) word other) :
    Built start root loose (kernel.setMemory other) ∧
      pageTables.Reaches other (pathOf va) (depth + 1) table 4 root ∧
      pageTables.present (pageTables.entry other table (pathOf va (depth + 1))) = true := by
  obtain ⟨away, distinct⟩ := nodup_cons.mp holds.distinct
  have new : frame ≠ root ∧ frame ∉ pageTables.below kernel.memory 4 root := by
    rw [mem_append, mem_owned, not_or, not_or] at away
    exact away.1
  obtain ⟨grown, stays⟩ := reaches.link walks (List.Nodup.of_append_left distinct) written absent
    new empty refers.present refers.frame
  refine ⟨?_, stays, by rw [written.written]; exact refers.present⟩
  have more : (frame :: (owned kernel.memory root ++ loose)).Perm (owned other root ++ loose) := by
    rw [← cons_append]
    exact ((grown.append_right [root]).symm).append_right loose
  refine Holds.perm (holds.write fun byte outside => ?_) more
  refine written.kept (byte / frameSize) (fun same => outside ?_) byte rfl
  rw [same]
  exact mem_cons_of_mem _ (mem_append_left _ (mem_owned.mpr (reaches.mem walks)))

/-- Where an entry of a walk is. -/
theorem place_eq (table va level : Nat) :
    table * frameSize + 8 * tableIndex va level = pageTables.place table (pathOf va (level + 1)) :=
  rfl

section

variable (built : Built start root loose kernel) (walks : pageTables.Along (pathOf va))
include built walks

theorem ensureTable_meets
    (reaches : pageTables.Reaches kernel.memory (pathOf va) (level + 2) table 4 root) :
    (ensureTable (table * frameSize + 8 * tableIndex va (level + 1))).Meets kernel
      (fun there after => after.slots = kernel.slots ∧ Built start root loose after ∧
        (there = true → pageTables.present
            (pageTables.entry after.memory table (pathOf va (level + 2))) = true ∧
          pageTables.Reaches after.memory (pathOf va) (level + 2) table 4 root))
      fails := by
  rw [place_eq]
  refine .gets ?_
  refine .ite (fun absent => ?_) fun absent => ?_
  · refine (allocZeroedFrame_meets built).bind ?_
    rintro _ middle (⟨rfl, rfl⟩ | ⟨idx, rfl, takes⟩)
    · exact .pure ⟨rfl, built, nofun⟩
    · have spares : Spares root kernel middle :=
        takes.spares fun frame listed => mem_append_left _ listed
      have entry := Format.entry_congr (walks (level + 1))
        (spares.agree table (mem_owned.mpr (reaches.mem walks)))
      have holds : Holds start (idx :: (owned middle.memory root ++ loose)) middle.frames := by
        rw [spares.owned]
        exact takes.holds
      have refers := refers_table (takes.holds.small idx mem_cons_self).2
      obtain ⟨linked, stays, present⟩ := link holds walks (spares.reaches walks reaches)
        (by rw [entry]; exact decide_eq_false (not_not.mpr absent))
        (Format.below_of_zero rfl takes.zero) refers
        (Format.written_writeWord (walks (level + 1)) refers.fits)
      exact .changes (.pure ⟨takes.slots, linked, fun _ => ⟨present, stays⟩⟩)
  · exact .pure ⟨rfl, built, fun _ => ⟨decide_eq_true absent, reaches⟩⟩

/-- A walk that creates tables keeps account of them, and ends at the entry of the address. -/
theorem walkCreate_meets
    (reaches : pageTables.Reaches kernel.memory (pathOf va) (level + 1) table 4 root) :
    (walkCreate va level (table * frameSize)).Meets kernel
      (fun found after => after.slots = kernel.slots ∧ Built start root loose after ∧
        ∀ place, found = some place → ∃ last, place = pageTables.place last (pathOf va 1) ∧
          pageTables.Reaches after.memory (pathOf va) 1 last 4 root)
      fails := by
  induction level generalizing table kernel with
  | zero =>
    refine .pure ⟨rfl, built, fun place same => ⟨table, ?_, reaches⟩⟩
    rw [← Option.some.inj same]
    rfl
  | succ level ih =>
    refine (ensureTable_meets built walks reaches).bind fun there middle ensured => ?_
    obtain ⟨slots, built, found⟩ := ensured
    cases there with
    | false => exact .pure ⟨slots, built, nofun⟩
    | true =>
      obtain ⟨present, reaches⟩ := found rfl
      refine .gets ?_
      rw [place_eq]
      rw [and_pteAddr_eq]
      refine (ih built ?_).imp ?_
      · exact reaches.extend present
      · rintro _ _ ⟨same, rest⟩
        exact ⟨same.trans slots, rest⟩

end

/-- Mapping a page makes a loose frame part of the address space, or leaves it loose. -/
theorem mapUserPage_meets (built : Built start root (frame :: loose) kernel)
    (walks : pageTables.Along (pathOf va)) (writable executable : Bool) :
    (mapUserPage (root * frameSize) va (frame * frameSize) writable executable).Meets kernel
      (fun _ after => after.slots = kernel.slots ∧ Built start root loose after)
      fun _ after => after.slots = kernel.slots ∧ Built start root (frame :: loose) after := by
  refine (walkCreate_meets built walks .here).bind ?_
  rintro found _ ⟨slots, built, ends⟩
  cases found with
  | none => exact .fail ⟨slots, built⟩
  | some place =>
    obtain ⟨_, rfl, reaches⟩ := ends place rfl
    refine .gets ?_
    refine .guard ⟨slots, built⟩ fun present => ?_
    have small := (built.small frame (mem_append_right _ mem_cons_self)).2
    have refers := refers_page small writable executable
    obtain ⟨linked, _⟩ := link (built.perm perm_middle) walks reaches
      (decide_eq_false present) rfl refers (Format.written_writeWord (walks 0) refers.fits)
    exact .of_ok rfl ⟨slots, linked⟩

/-! ### Roots -/

/-- Sharing the kernel's entries leaves the user window empty. -/
theorem shareKernel_meets (taken : Holds start [root] kernel.frames)
    (empty : pageTables.entry kernel.memory root userPml4Slot = 0) (kernelRoot : Nat) :
    (shareKernel kernelRoot (root * frameSize)).Meets kernel
      (fun _ after => after.slots = kernel.slots ∧ Holds start [root] after.frames ∧
        pageTables.entry after.memory root userPml4Slot = 0) fails := by
  refine (Program.Meets.forEach (fun rest after => (∀ i ∈ rest, i < 512) ∧
    after.slots = kernel.slots ∧ Holds start [root] after.frames ∧
    pageTables.entry after.memory root userPml4Slot = 0) ?_ ?_).imp fun _ _ kept => kept.2
  · exact ⟨fun i => mem_tableEntries.mp, rfl, taken, empty⟩
  intro i _ _ kept
  obtain ⟨_, bounds⟩ := forall_mem_cons.mp kept.1
  refine .when (fun other => .gets ?_) fun _ => ⟨bounds, kept.2⟩
  refine .modify ⟨bounds, kept.2.1, ?_, ?_⟩
  · refine kept.2.2.1.write fun byte outside => Memory.writeWord_of_outside _ _ ?_
    rw [mem_singleton] at outside
    by_contra inside
    refine outside (div_frameSize (show root * frameSize ≤ byte by omega) ?_)
    unfold frameSize at *
    omega
  · exact (Format.entry_writeWord_of_ne fun same => other same.symm).trans kept.2.2.2

theorem newAddressSpace_meets (holds : Holds start [] kernel.frames) (kernelRoot : Nat) :
    (newAddressSpace kernelRoot).Meets kernel (fun space after => after.slots = kernel.slots ∧
        ∃ root, space = root * frameSize ∧ Built start root [] after)
      fun _ after => after = kernel := by
  refine (allocZeroedFrame_meets holds).bind ?_
  rintro _ middle (⟨rfl, rfl⟩ | ⟨root, rfl, takes⟩)
  · exact .fail rfl
  · have empty : pageTables.entry middle.memory root userPml4Slot = 0 := by
      have slot : 8 * userPml4Slot + 8 ≤ frameSize := by decide
      refine Memory.ZeroOn.readWord fun byte low high => takes.zero byte ?_ ?_
      · exact Nat.le_trans (Nat.le_add_right ..) low
      · have high : byte < root * frameSize + 8 * userPml4Slot + 8 := high
        omega
    refine (shareKernel_meets takes.holds empty kernelRoot).bind ?_
    rintro _ after ⟨slots, taken, empty⟩
    refine .pure ⟨slots.trans takes.slots, root, rfl, ?_⟩
    have none_ : pageTables.below after.memory 4 root = [] := by
      rw [Format.below_succ]
      refine flatMap_eq_nil_iff.mpr fun index used => ?_
      rw [mem_singleton.mp used]
      refine Format.branch_of_absent ?_
      rw [empty]
      rfl
    rw [Built, owned, none_]
    exact taken

/-! ### Relocations -/

/-- Flags that include the one of presence. -/
theorem present_of_flags {mask : Nat} (same : word &&& mask = flags)
    (inMask : mask &&& ptePresent = ptePresent) (inFlags : flags &&& ptePresent ≠ 0) :
    pageTables.present word = true := by
  refine decide_eq_true ?_
  rw [← inMask, ← Nat.and_assoc, same]
  exact inFlags

theorem walkPrivate_meets
    (reaches : pageTables.Reaches kernel.memory (pathOf va) (level + 1) table 4 root) :
    (walkPrivate va level (table * frameSize)).Meets kernel
      (fun found after => after = kernel ∧ ∃ last, found = last * frameSize ∧
        pageTables.Reaches kernel.memory (pathOf va) 1 last 4 root)
      fun _ after => after = kernel := by
  induction level generalizing table with
  | zero => exact .pure ⟨rfl, table, rfl, reaches⟩
  | succ level ih =>
    refine .gets ?_
    rw [place_eq]
    split
    case isTrue => exact .fail rfl
    case isFalse flags =>
      rw [and_pteAddr_eq]
      refine ih (reaches.extend ?_)
      exact present_of_flags (not_not.mp flags) (by decide) (by decide)

theorem relocatePrivateData_meets (built : Built start root loose kernel) (value : Nat) :
    (relocatePrivateData (root * frameSize) va value).Meets kernel
      (fun _ after => after.slots = kernel.slots ∧ Built start root loose after)
      fun _ after => after.slots = kernel.slots ∧ Built start root loose after := by
  unfold relocatePrivateData
  split
  case isTrue => exact .fail ⟨rfl, built⟩
  case isFalse valid =>
    rw [not_or, not_or, not_or, not_not, Nat.not_lt, Nat.not_le] at valid
    obtain ⟨_, _, low, high⟩ := valid
    have walks := pathOf_mem low high
    refine .bind ((walkPrivate_meets .here).loosen ?_) ?_
    · rintro _ _ rfl
      exact ⟨rfl, built⟩
    · rintro _ after ⟨unchanged, last, rfl, reaches⟩
      rw [unchanged]
      refine .gets ?_
      rw [place_eq]
      show Program.Meets (if pageTables.entry kernel.memory last (pathOf va 1) &&& _ ≠ _ then _
        else writeEntry ((pageTables.entry kernel.memory last (pathOf va 1) &&& pteAddr) +
          _) _) _ _ _
      split
      case isTrue => exact .fail ⟨rfl, built⟩
      case isFalse flags =>
        have present : pageTables.present (pageTables.entry kernel.memory last (pathOf va 1)) :=
          present_of_flags (not_not.mp flags) (by decide) (by decide)
        have data := reaches.data_not_table walks built.exclusive present
        have inside := reaches.frame_mem walks present
        rw [and_pteAddr_eq]
        generalize pageTables.frame (pageTables.entry kernel.memory last (pathOf va 1)) = frame at *
        have agree : ∀ byte, byte / frameSize ≠ frame → kernel.memory.writeWord
            (frame * frameSize + (va &&& 4095)) value byte = kernel.memory byte := by
          intro byte outside
          have offset : va &&& 4095 = va % 4096 := Nat.and_two_pow_sub_one_eq_mod va 12
          have lowBits : va &&& 7 = va % 8 := Nat.and_two_pow_sub_one_eq_mod va 3
          refine Memory.writeWord_of_outside _ _ ?_
          by_contra touched
          refine outside (div_frameSize (show frame * frameSize ≤ byte by omega) ?_)
          unfold frameSize at *
          omega
        refine .of_ok rfl ⟨rfl, ?_⟩
        have same : owned (kernel.memory.writeWord (frame * frameSize + (va &&& 4095)) value) root =
            owned kernel.memory root := by
          refine owned_congr fun table listed byte inTable => agree byte ?_
          rintro wrong
          have inTable : byte / frameSize = table := inTable
          exact data (by rw [← wrong, inTable]; exact listed)
        show Holds start (owned (kernel.memory.writeWord _ value) root ++ loose) _
        rw [same]
        refine Holds.write built fun byte outside => agree byte ?_
        rintro wrong
        refine outside (mem_append_left _ (mem_owned.mpr (Or.inr ?_)))
        rw [wrong]
        exact inside

/-! ### Tearing down -/

/-- Some frames have been given back, and only they have changed. -/
structure Returned (start : FrameAllocator) (before : Kernel) (gone others : List Nat)
    (after : Kernel) : Prop where
  slots : after.slots = before.slots
  holds : Holds start others after.frames
  agree : ∀ byte, byte / frameSize ∉ gone → after.memory byte = before.memory byte

/-- One frame more is given back. -/
theorem Returned.freeFrame {gone : List Nat}
    (returned : Returned start kernel gone (frame :: others) after) :
    (freeFrame (frame * frameSize)).Meets after
      (fun _ last => Returned start kernel (gone ++ [frame]) others last) fails := by
  refine (freeFrame_meets returned.holds).imp ?_
  rintro _ _ ⟨slots, holds, agree⟩
  refine ⟨slots.trans returned.slots, holds, fun byte outside => ?_⟩
  rw [mem_append, mem_singleton, not_or] at outside
  exact (agree byte outside.2).trans (returned.agree byte outside.1)

theorem Returned.trans {first second : List Nat} {middle last : Kernel} {rest : List Nat}
    (early : Returned start kernel first rest middle)
    (late : Returned start middle second others last) :
    Returned start kernel (first ++ second) others last := by
  refine ⟨late.slots.trans early.slots, late.holds, fun byte outside => ?_⟩
  rw [mem_append, not_or] at outside
  exact (late.agree byte outside.2).trans (early.agree byte outside.1)

theorem pageTables_indices (shallow : level + 1 < 4) :
    pageTables.indices (level + 1) = tableEntries :=
  if_neg (by omega)

/-- What is below a table is freed, frame by frame. -/
theorem freeLevel_meets {freed : Nat} (shallow : level < 4)
    (exclusive : Format.Exclusive pageTables kernel.memory level table)
    (holds : Holds start (pageTables.below kernel.memory level table ++ others) kernel.frames) :
    (freeLevel level (table * frameSize) freed).Meets kernel
      (fun count after => count = freed + (pageTables.below kernel.memory level table).length ∧
        Returned start kernel (pageTables.below kernel.memory level table) others after)
      fails := by
  induction level generalizing table freed others kernel with
  | zero => exact .pure ⟨rfl, rfl, holds, fun _ _ => rfl⟩
  | succ level ih =>
    have whole : pageTables.below kernel.memory (level + 1) table =
        tableEntries.flatMap (pageTables.branch kernel.memory level table) := by
      rw [Format.below_succ, pageTables_indices shallow]
    have distinct := List.Nodup.of_append_left exclusive
    refine (Program.Meets.foldlM (fun rest count after => ∃ done, done ++ rest = tableEntries ∧
      count = freed + (done.flatMap (pageTables.branch kernel.memory level table)).length ∧
      Returned start kernel (done.flatMap (pageTables.branch kernel.memory level table))
        (rest.flatMap (pageTables.branch kernel.memory level table) ++ others) after) ?_ ?_).imp ?_
    · refine ⟨[], rfl, rfl, rfl, ?_, fun _ _ => rfl⟩
      rw [← whole]
      exact holds
    · rintro index rest count before ⟨done, split_, counted, returned⟩
      have used : index ∈ pageTables.indices (level + 1) := by
        rw [pageTables_indices shallow, ← split_]
        exact mem_append_right _ mem_cons_self
      have untouched : ∀ frame, frame = table ∨
          frame ∈ pageTables.branch kernel.memory level table index →
          pageTables.AgreeAt kernel.memory before.memory frame := by
        intro frame where_ byte inFrame
        have inFrame : byte / frameSize = frame := inFrame
        refine returned.agree byte fun gone => ?_
        rw [inFrame] at gone
        rcases where_ with rfl | inBranch
        · refine exclusive.root_not_mem ?_
          rw [whole, ← split_, flatMap_append]
          exact mem_append_left _ gone
        · rw [whole, ← split_, flatMap_append, flatMap_cons] at distinct
          exact disjoint_of_nodup_append distinct gone (mem_append_left _ inBranch)
      have same := Format.entry_congr used (untouched table (Or.inl rfl))
      have unchanged : pageTables.branch before.memory level table index =
          pageTables.branch kernel.memory level table index :=
        Format.branch_congr same fun frame inBranch => untouched frame (Or.inr inBranch)
      have next : done ++ [index] ++ rest = tableEntries := by
        rw [append_assoc]
        exact split_
      refine .gets ?_
      refine .ite (fun absent => ?_) fun absent => ?_
      · have none_ : pageTables.branch kernel.memory level table index = [] := by
          rw [← unchanged]
          exact Format.branch_of_absent (decide_eq_false (not_not.mpr absent))
        refine .pure ⟨done ++ [index], next, ?_, ?_⟩
        · rw [counted, flatMap_append, flatMap_singleton, none_, append_nil]
        · rw [flatMap_cons, none_, nil_append] at returned
          rw [flatMap_append, flatMap_singleton, none_, append_nil]
          exact returned
      · have present : pageTables.present (pageTables.entry before.memory table index) :=
          decide_eq_true absent
        have branch : pageTables.branch kernel.memory level table index = _ :=
          unchanged.symm.trans (Format.branch_of_present present)
        have inner := Format.branch_nodup distinct used
        rw [branch] at inner
        rw [flatMap_cons, branch, append_assoc, append_assoc] at returned
        rw [and_pteAddr_eq]
        refine (ih (Nat.lt_of_succ_lt shallow) inner returned.holds).bind ?_
        rintro _ _ ⟨countedInside, returnedInside⟩
        refine (returned.trans returnedInside).freeFrame.bind fun _ last returnedAll => ?_
        refine .pure ⟨done ++ [index], next, ?_, ?_⟩
        · rw [flatMap_append, flatMap_singleton, branch, countedInside, counted]
          simp only [length_append, length_singleton, Nat.add_assoc]
        · rw [flatMap_append, flatMap_singleton, branch, ← append_assoc]
          exact returnedAll
    · rintro _ _ ⟨_, split_, counted, returned⟩
      rw [append_nil] at split_
      rw [split_, ← whole] at counted returned
      exact ⟨counted, returned⟩

/-- The whole address space is freed. -/
theorem freeAddressSpace_meets
    (holds : Holds start (owned kernel.memory root ++ others) kernel.frames) :
    (freeAddressSpace (root * frameSize)).Meets kernel
      (fun count after => count = (owned kernel.memory root).length ∧
        Returned start kernel (owned kernel.memory root) others after)
      fails := by
  have whole : pageTables.below kernel.memory 4 root =
      pageTables.branch kernel.memory 3 root userPml4Slot := flatMap_singleton ..
  refine .gets ?_
  show Program.Meets (if pageTables.entry kernel.memory root userPml4Slot &&& ptePresent ≠ 0 then
    (do
      let freed ← freeLevel 3 (pageTables.entry kernel.memory root userPml4Slot &&& pteAddr) 0
      User.freeFrame (pageTables.entry kernel.memory root userPml4Slot &&& pteAddr)
      User.freeFrame (root * frameSize)
      pure (freed + 1 + 1)) else _) _ _ _
  refine .ite (fun present => ?_) fun present => ?_
  · have branch : pageTables.branch kernel.memory 3 root userPml4Slot = _ :=
      Format.branch_of_present (decide_eq_true present)
    have exclusive := List.Nodup.of_append_left (List.Nodup.of_append_left holds.distinct)
    rw [whole, branch] at exclusive
    rw [owned, whole, branch] at holds ⊢
    rw [and_pteAddr_eq]
    generalize pageTables.frame (pageTables.entry kernel.memory root userPml4Slot) = top at *
    rw [append_assoc, append_assoc] at holds
    refine (freeLevel_meets (by decide) exclusive holds).bind ?_
    rintro _ _ ⟨counted, returned⟩
    refine returned.freeFrame.bind fun _ later returned => ?_
    refine returned.freeFrame.bind fun _ last returned => .pure ⟨?_, returned⟩
    rw [counted, Nat.zero_add, length_append, length_append]
    rfl
  · have none_ : pageTables.branch kernel.memory 3 root userPml4Slot = [] :=
      Format.branch_of_absent (decide_eq_false present)
    rw [owned, whole, none_, nil_append] at holds ⊢
    have returned : Returned start kernel [] (root :: others) kernel :=
      ⟨rfl, holds, fun _ _ => rfl⟩
    exact returned.freeFrame.bind fun _ last returned => .pure ⟨rfl, returned⟩

end Spaces

end Mmurtl.User

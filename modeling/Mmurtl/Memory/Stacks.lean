/-
This file models the guarded stacks of the kernel: the page tables of their region on both
architectures, the allocation of a stack between two pages that stay unmapped, and its release,
which gives back the frames of its pages and of the tables it leaves empty.
-/

import Mmurtl.User.Spaces

namespace Mmurtl.Stacks

open Frames User

variable {idx : Nat}

/-! ### Layout -/

def base : Nat := 0xffffe00000000000
def limit : Nat := base + 2 ^ 39
def page : Nat := 4096
def stackSize : Nat := 32768
def stride : Nat := 65536

/-- Where the first stack is placed. -/
def firstSlot (draw : Nat) : Nat := base + ((draw &&& 0x1fffff) + 1) * stride

/-! ### Architectures -/

/-- What an architecture puts into its page tables. -/
structure Arch where
  /-- An entry refers to something. -/
  present : Nat → Bool
  /-- The number of the frame an entry refers to. -/
  frame : Nat → Nat
  /-- What is asserted of an entry before it is followed to a table. -/
  tableOk : Nat → Bool
  /-- An entry maps a block of pages instead of a table. -/
  isBlock : Nat → Bool
  /-- Whether the pages of a block in a table of a level count as mapped. -/
  blockMapped : Nat → Bool
  /-- The entries for the table and for the stack page at an address. -/
  tableWord : Nat → Nat
  pageWord : Nat → Nat
  /-- Whether a new table is cleared once more. -/
  zeroesTables : Bool
  /-- Where stack pages may be mapped. -/
  mayMap : Nat → Bool
  absent : present 0 = false
  table_refers : ∀ idx < 2 ^ 36, tableWord (idx * frameSize) < 2 ^ 64 ∧
    present (tableWord (idx * frameSize)) = true ∧ frame (tableWord (idx * frameSize)) = idx ∧
    tableOk (tableWord (idx * frameSize)) = true ∧ isBlock (tableWord (idx * frameSize)) = false
  page_refers : ∀ idx < 2 ^ 36, pageWord (idx * frameSize) < 2 ^ 64 ∧
    present (pageWord (idx * frameSize)) = true ∧ frame (pageWord (idx * frameSize)) = idx
  may : ∀ va, base ≤ va → va < limit → mayMap va = true

/-- An entry made of an address and of flags outside the bits of addresses. -/
theorem refers_of_flags {bits flags : Nat} (wide : 36 ≤ bits) (small : idx < 2 ^ 36)
    (fits : flags < 2 ^ 64) (clear : ∀ bit < 12 + bits, 12 ≤ bit → flags.testBit bit = false)
    (present : flags &&& 1 ≠ 0) :
    (idx * frameSize ||| flags) < 2 ^ 64 ∧ decide ((idx * frameSize ||| flags) &&& 1 ≠ 0) = true ∧
      (idx * frameSize ||| flags) / 4096 % 2 ^ bits = idx := by
  have address : idx * frameSize < 2 ^ 64 := by
    unfold frameSize
    omega
  refine ⟨Nat.or_lt_two_pow address fits, decide_eq_true fun none_ => present ?_, ?_⟩
  · rw [Nat.and_or_distrib_right] at none_
    exact (Nat.or_eq_zero_iff.mp none_).2
  · refine Nat.eq_of_testBit_eq fun bit => ?_
    rw [show 4096 = 2 ^ 12 from rfl, Nat.testBit_mod_two_pow, Nat.testBit_div_two_pow,
      Nat.testBit_or, show frameSize = 2 ^ 12 from rfl, Nat.testBit_mul_two_pow]
    by_cases inside : bit < bits
    · rw [clear (bit + 12) (by omega) (by omega)]
      simp [inside]
    · have high : idx.testBit bit = false :=
        Nat.testBit_lt_two_pow (Nat.lt_of_lt_of_le small
          (Nat.pow_le_pow_right (by decide) (by omega)))
      simp [inside, high]

/-- The address of a frame has none of the bits of an offset. -/
theorem mul_frameSize_and {mask : Nat} (low : mask < frameSize) : idx * frameSize &&& mask = 0 := by
  refine Nat.eq_of_testBit_eq fun bit => ?_
  rw [Nat.testBit_and, show frameSize = 2 ^ 12 from rfl, Nat.testBit_mul_two_pow, Nat.zero_testBit]
  by_cases inside : 12 ≤ bit
  · have more : 2 ^ 12 ≤ 2 ^ bit := Nat.pow_le_pow_right (by decide) inside
    rw [Nat.testBit_lt_two_pow (Nat.lt_of_lt_of_le low more), Bool.and_false]
  · simp [inside]

def amd64 : Arch where
  present word := decide (word &&& 1 ≠ 0)
  frame word := word / 4096 % 2 ^ 40
  tableOk _ := true
  isBlock word := decide (word &&& 128 ≠ 0)
  blockMapped level := decide (level ≠ 3)
  tableWord pa := pa ||| 0x23
  pageWord pa := pa ||| (2 ^ 63 ||| 0x3)
  zeroesTables := true
  mayMap _ := true
  absent := rfl
  table_refers idx small := by
    obtain ⟨fits, present, frame⟩ := refers_of_flags (show 36 ≤ 40 by decide) small
      (show 0x23 < 2 ^ 64 by decide) (by decide) (by decide)
    refine ⟨fits, present, frame, rfl, decide_eq_false fun block => block ?_⟩
    rw [Nat.and_or_distrib_right, mul_frameSize_and (by decide)]
    rfl
  page_refers idx small :=
    refers_of_flags (show 36 ≤ 40 by decide) small
      (show (2 ^ 63 ||| 0x3) < 2 ^ 64 by decide) (by decide) (by decide)
  may _ _ _ := rfl

def arm64 : Arch where
  present word := decide (word &&& 1 ≠ 0)
  frame word := word / 4096 % 2 ^ 36
  tableOk word := decide (word &&& 3 = 3)
  isBlock word := decide (word &&& 2 = 0)
  blockMapped _ := false
  tableWord pa := pa ||| 0x3
  pageWord pa := pa ||| (2 ^ 54 ||| 2 ^ 53 ||| 0x707)
  zeroesTables := false
  mayMap va := decide (0xffffe00000000000 ≤ va ∧ va < 0xffffe08000000000)
  absent := rfl
  table_refers idx small := by
    obtain ⟨fits, present, frame⟩ := refers_of_flags (Nat.le_refl 36) small
      (show 0x3 < 2 ^ 64 by decide) (by decide) (by decide)
    refine ⟨fits, present, frame, decide_eq_true ?_, decide_eq_false ?_⟩
    · rw [Nat.and_or_distrib_right, mul_frameSize_and (by decide)]
      rfl
    · rw [Nat.and_or_distrib_right, mul_frameSize_and (by decide)]
      decide
  page_refers idx small :=
    refers_of_flags (Nat.le_refl 36) small
      (show (2 ^ 54 ||| 2 ^ 53 ||| 0x707) < 2 ^ 64 by decide) (by decide) (by decide)
  may va low high := by
    refine decide_eq_true ⟨low, ?_⟩
    unfold limit base at high
    omega

/-! ### Page tables -/

/-- The frames with the physical memory, and where the next stack is placed. -/
structure Region where
  frames : FrameAllocator
  next : Nat

def Region.memory (region : Region) : Memory := region.frames.memory

/-- A call of the allocator of stacks: no error, but possibly a panic. -/
abbrev Call (α : Type) := Program Region Empty α

def readEntry (address : Nat) : Call Nat :=
  Program.gets fun region => region.memory.readWord address

def Region.setMemory (region : Region) (memory : Memory) : Region :=
  { region with frames := { region.frames with memory := memory } }

def writeEntry (address value : Nat) : Call Unit :=
  Program.modify fun region => region.setMemory (region.memory.writeWord address value)

/-- Call the allocator of frames. -/
def onFrames {α : Type} (call : Frames.Call α) : Call α :=
  Program.within Region.frames (fun region frames => { region with frames }) call

/-- A frame, which must not be missing. -/
def takeFrame : Call Nat := do
  let found ← onFrames FrameAllocator.allocateZeroedFrame
  Program.expect found

def freeFrame (pa : Nat) : Call Unit := onFrames (FrameAllocator.deallocateFrame pa)

section Tables

variable (arch : Arch) (root : Nat)

/-- The table an entry refers to. -/
def tableOf (word : Nat) : Call Nat := do
  Program.require (arch.tableOk word = true)
  pure (arch.frame word * frameSize)

/-- The table an entry refers to, after creating one if it is absent. -/
def ensureTable (place : Nat) : Call Nat := do
  let word ← readEntry place
  if arch.present word then tableOf arch word
  else do
    let pa ← takeFrame
    Program.when (arch.zeroesTables = true) (onFrames (FrameAllocator.scrub pa frameSize))
    writeEntry place (arch.tableWord pa)
    tableOf arch (arch.tableWord pa)

/-- Walk from a table of a level down to the entry of an address, creating tables. -/
def walkCreate (va : Nat) : Nat → Nat → Call Nat
  | 0, table => pure (table + 8 * tableIndex va 0)
  | level + 1, table => do
      let next ← ensureTable arch (table + 8 * tableIndex va (level + 1))
      walkCreate va level next

/-- Map one page of the region. -/
def map (va pa : Nat) : Call Unit := do
  Program.require (arch.mayMap va = true)
  let place ← walkCreate arch va 3 (root * frameSize)
  let word ← readEntry place
  Program.require (arch.present word = false)
  writeEntry place (arch.pageWord pa)

/-- Whether a page below a table of a level is mapped. -/
def walkMapped (va : Nat) : Nat → Nat → Call Bool
  | 0, table => do
      let word ← readEntry (table + 8 * tableIndex va 0)
      pure (arch.present word)
  | level + 1, table => do
      let word ← readEntry (table + 8 * tableIndex va (level + 1))
      if arch.present word = false then pure false
      else if arch.isBlock word then pure (arch.blockMapped (level + 1))
      else walkMapped va level (arch.frame word * frameSize)

def mapped (va : Nat) : Call Bool := walkMapped arch va 3 (root * frameSize)

/-- Walk from a table of a level down to the entry of an address, through tables that are there. -/
def walkFind (va : Nat) : Nat → Nat → Call Nat
  | 0, table => pure (table + 8 * tableIndex va 0)
  | level + 1, table => do
      let word ← readEntry (table + 8 * tableIndex va (level + 1))
      Program.require (arch.present word = true ∧ arch.tableOk word = true)
      walkFind va level (arch.frame word * frameSize)

/-- Unmap one page of the region; its frame. -/
def unmap (va : Nat) : Call Nat := do
  let place ← walkFind arch va 3 (root * frameSize)
  let word ← readEntry place
  Program.require (arch.present word = true)
  writeEntry place 0
  pure (arch.frame word * frameSize)

/-- Whether no entry of a table is present. -/
def isEmpty (table : Nat) : Call Bool :=
  Program.gets fun region => tableEntries.all fun i =>
    !arch.present (region.memory.readWord (table + 8 * i))

/-- Follow an entry to a table. -/
def follow (place : Nat) : Call Nat := do
  let word ← readEntry place
  tableOf arch word

/-- Detach the lower tables of an address that are empty; what is detached, or zero. The table
below the root stays. -/
def detachEmpty (va : Nat) : Call (Nat × Nat) := do
  let pdpt ← follow arch (root * frameSize + 8 * tableIndex va 3)
  let pd ← follow arch (pdpt + 8 * tableIndex va 2)
  let pt ← follow arch (pd + 8 * tableIndex va 1)
  let last ← isEmpty arch pt
  if last then do
    writeEntry (pd + 8 * tableIndex va 1) 0
    let directory ← isEmpty arch pd
    if directory then do
      writeEntry (pdpt + 8 * tableIndex va 2) 0
      pure (pt, pd)
    else pure (pt, 0)
  else pure (0, 0)

/-! ### Stacks -/

structure KernelStack where
  virt : Nat
  phys : Nat
  size : Nat
  deriving DecidableEq

/-- Set the region up, with a page that stays mapped and a random place for the first stack. -/
def init (draw : Nat) : Call Unit := do
  Program.modify fun region => { region with next := firstSlot draw }
  let pa ← takeFrame
  map arch root base pa

/-- Map the pages of a stack from one on; the frame of the first one. -/
def mapPages (virt : Nat) : List Nat → Option Nat → Call (Option Nat)
  | [], first => pure first
  | i :: rest, first => do
      let pa ← takeFrame
      map arch root (virt + i * page) pa
      mapPages virt rest (some (first.getD pa))

/-- Allocate a stack. Its addresses are not used again. -/
def allocateSized (size : Nat) : Call KernelStack := do
  let guard ← Program.gets Region.next
  Program.require (guard + stride ≤ limit)
  Program.modify fun region => { region with next := guard + stride }
  let virt := guard + page
  let below ← mapped arch root guard
  Program.require (below = false)
  let above ← mapped arch root (virt + size)
  Program.require (above = false)
  let first ← mapPages arch root virt (List.range (size / page)) none
  let phys ← Program.expect first
  pure ⟨virt, phys, size⟩

def allocate : Call KernelStack := allocateSized arch root stackSize

/-- Unmap the pages of a stack; their frames. -/
def unmapPages (virt : Nat) : List Nat → Call (List Nat)
  | [] => pure []
  | i :: rest => do
      let pa ← unmap arch root (virt + i * page)
      let pages ← unmapPages virt rest
      pure (pa :: pages)

/-- Release a stack; how many frames are given back. -/
def releaseSized (virt phys size : Nat) : Call Nat := do
  Program.require (base + 2 * page ≤ virt ∧ virt + size < limit)
  let pages ← unmapPages arch root virt (List.range (size / page))
  Program.require (pages.headD 0 = phys)
  let (pt, pd) ← detachEmpty arch root virt
  Program.forEach pages freeFrame
  Program.forEach [pt, pd] fun pa => Program.when (pa ≠ 0) (freeFrame pa)
  pure (size / page + ([pt, pd].filter fun pa => pa ≠ 0).length)

def release (virt phys : Nat) : Call Nat := releaseSized arch root virt phys stackSize

end Tables

end Mmurtl.Stacks

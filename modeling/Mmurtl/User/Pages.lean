/-
This file models the address spaces of user programs: page tables in physical memory, walked
and created level by level, and torn down recursively.
-/

import Mmurtl.Memory.Frames
import Mmurtl.User.Layout

namespace Mmurtl.User

open Frames

/-- The allocator of frames with the physical memory, and which program slots are used. -/
structure Kernel where
  frames : FrameAllocator
  slots : BitVec 64

abbrev Load (α : Type) := Program Kernel String α

namespace Kernel

def memory (kernel : Kernel) : Memory := kernel.frames.memory

def setFrames (kernel : Kernel) (frames : FrameAllocator) : Kernel :=
  { kernel with frames := frames }

def setMemory (kernel : Kernel) (memory : Memory) : Kernel :=
  { kernel with frames := { kernel.frames with memory := memory } }

end Kernel

/-! ### Physical memory -/

def readEntry (address : Nat) : Load Nat :=
  Program.gets fun kernel => kernel.memory.readWord address

def writeEntry (address value : Nat) : Load Unit :=
  Program.modify fun kernel => kernel.setMemory (kernel.memory.writeWord address value)

/-- Copy some bytes to an address. -/
def copyBytes (address : Nat) (data : List UInt8) : Load Unit :=
  Program.modify fun kernel => kernel.setMemory (kernel.memory.writeBytes address data)

def allocZeroedFrame : Load (Option Nat) :=
  Program.within Kernel.frames Kernel.setFrames FrameAllocator.allocateZeroedFrame

def freeFrame (pa : Nat) : Load Unit :=
  Program.within Kernel.frames Kernel.setFrames (FrameAllocator.deallocateFrame pa)

/-! ### Page tables -/

def ptePresent : Nat := 1
def pteWritable : Nat := 2
def pteUser : Nat := 4
def pteHuge : Nat := 128
def pteNx : Nat := 2 ^ 63
def pteAddr : Nat := 0x000FFFFFFFFFF000

/-- The slot of the user window in the root table. -/
def userPml4Slot : Nat := (base >>> 39) &&& 0x1ff

/-- The index of an address in the table of a level. -/
def tableIndex (va level : Nat) : Nat := (va >>> (12 + 9 * level)) &&& 0x1ff

/-- The entries of a table. -/
@[irreducible] def tableEntries : List Nat := List.range 512

/-- Share every entry of the kernel's root table but the one of the user window. -/
def shareKernel (kernelRoot root : Nat) : Load Unit :=
  Program.forEach tableEntries fun i => Program.when (i ≠ userPml4Slot) do
    let word ← readEntry (kernelRoot + 8 * i)
    writeEntry (root + 8 * i) word

/-- A new root table, with an empty user window. -/
def newAddressSpace (kernelRoot : Nat) : Load Nat := do
  let found ← allocZeroedFrame
  match found with
  | none => Program.fail "out of memory for a page table"
  | some root => do
      shareKernel kernelRoot root
      pure root

/-- Whether an entry refers to a table, after creating one if it is absent. -/
def ensureTable (place : Nat) : Load Bool := do
  let word ← readEntry place
  if word &&& ptePresent = 0 then do
    let found ← allocZeroedFrame
    match found with
    | none => pure false
    | some pa => do
        writeEntry place (pa ||| ptePresent ||| pteWritable ||| pteUser)
        pure true
  else pure (decide (word &&& pteHuge = 0))

/-- Walk from a table of a level down to the entry of an address, creating tables. -/
def walkCreate (va : Nat) : Nat → Nat → Load (Option Nat)
  | 0, table => pure (some (table + 8 * tableIndex va 0))
  | level + 1, table => do
      let there ← ensureTable (table + 8 * tableIndex va (level + 1))
      if there then do
        let word ← readEntry (table + 8 * tableIndex va (level + 1))
        walkCreate va level (word &&& pteAddr)
      else pure none

/-- The entry of a page. -/
def pageEntry (pa : Nat) (writable executable : Bool) : Nat :=
  let pte := (pa &&& pteAddr) ||| ptePresent ||| pteUser
  let pte := if writable then pte ||| pteWritable else pte
  if executable then pte else pte ||| pteNx

/-- Map one page. -/
def mapUserPage (root va pa : Nat) (writable executable : Bool) : Load Unit := do
  let found ← walkCreate va 3 root
  match found with
  | none => Program.fail "out of memory for page tables"
  | some place => do
      let word ← readEntry place
      if word &&& ptePresent ≠ 0 then Program.fail "page already mapped"
      else writeEntry place (pageEntry pa writable executable)

/-- Free what is below a table of a level, and count the frames. Below the last level there are no
tables. -/
def freeLevel : Nat → Nat → Nat → Load Nat
  | 0, _, freed => pure freed
  | level + 1, table, freed => tableEntries.foldlM (fun freed i => do
      let word ← readEntry (table + 8 * i)
      if word &&& ptePresent = 0 then pure freed
      else do
        let freed ← freeLevel level (word &&& pteAddr) freed
        freeFrame (word &&& pteAddr)
        pure (freed + 1)) freed

/-- Free the pages of the user window, its tables and the root. -/
def freeAddressSpace (root : Nat) : Load Nat := do
  let top ← readEntry (root + 8 * userPml4Slot)
  if top &&& ptePresent ≠ 0 then do
    let freed ← freeLevel 3 (top &&& pteAddr) 0
    freeFrame (top &&& pteAddr)
    freeFrame root
    pure (freed + 1 + 1)
  else do
    freeFrame root
    pure (0 + 1)

/-- Walk from a table of a level down to the last table of an address. -/
def walkPrivate (va : Nat) : Nat → Nat → Load Nat
  | 0, table => pure table
  | level + 1, table => do
      let word ← readEntry (table + 8 * tableIndex va (level + 1))
      if word &&& (ptePresent ||| pteUser ||| pteHuge) ≠ ptePresent ||| pteUser then
        Program.fail "missing private relocation table"
      else walkPrivate va level (word &&& pteAddr)

/-- Write a word to a page of data. -/
def relocatePrivateData (root va value : Nat) : Load Unit :=
  if root = 0 ∨ va &&& 7 ≠ 0 ∨ va < base ∨ windowEnd ≤ va then
    Program.fail "invalid private relocation target"
  else do
    let table ← walkPrivate va 3 root
    let word ← readEntry (table + 8 * tableIndex va 0)
    if word &&& (ptePresent ||| pteUser ||| pteNx) ≠ ptePresent ||| pteUser ||| pteNx then
      Program.fail "relocation target is not NX user data"
    else writeEntry ((word &&& pteAddr) + (va &&& 4095)) value

end Mmurtl.User

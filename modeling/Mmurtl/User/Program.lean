/-
This file models the loading and the release of user programs, flat binaries and executables.
The random words of a load are its parameters.
-/

import Mmurtl.User.Elf
import Mmurtl.User.Pages

namespace Mmurtl.User

open Bytes

/-! ### Slots -/

/-- Take a free slot, the first from a random one on. -/
def allocSlot (random : Nat) : Load (Option Nat) := do
  let cur ← Program.gets Kernel.slots
  let rotate := random % 64
  if cur = BitVec.allOnes 64 then pure none
  else do
    let slot := (((~~~cur).rotateRight rotate).ctz.toNat + rotate) % 64
    Program.modify fun kernel => { kernel with slots := cur ||| BitVec.twoPow 64 slot }
    pure (some slot)

def freeSlot (slot : Nat) : Load Unit :=
  Program.modify fun kernel => { kernel with slots := kernel.slots &&& ~~~BitVec.twoPow 64 slot }

/-- Release an address space and its slot; the number of frames that were freed. -/
def release (space slot : Nat) : Load Nat := do
  let freed ← freeAddressSpace space
  freeSlot slot
  pure freed

/-! ### Flat binaries -/

structure UserImage where
  entry : Nat
  stackTop : Nat
  stackEdge : Nat
  startup : Nat
  space : Nat
  slot : Nat

/-- The random words a load draws. -/
structure Draws where
  slot : Nat
  code : Nat
  stack : Nat
  sp : Nat
  guard : Nat

def codeOffset : Nat := 0x1000

def maxFlatImage : Nat := 2 ^ 20 - 6 * pageSize

/-- Map a new frame with some data in it; the frame is freed if it cannot be mapped. -/
def mapFrame (space va offset : Nat) (data : List UInt8) (writable executable : Bool) :
    Load Unit := do
  let found ← allocZeroedFrame
  match found with
  | none => Program.fail "out of memory"
  | some pa => do
      copyBytes (pa + offset) data
      (mapUserPage space va pa writable executable).handle fun reason => do
        freeFrame pa
        Program.fail reason

/-- Map a new page with as much of some data as fits in it. -/
def mapFresh (space va : Nat) (data : List UInt8) (offset : Nat) (writable executable : Bool) :
    Load Unit :=
  mapFrame space va offset (data.take (pageSize - min offset pageSize)) writable executable

/-- The pages of a flat binary and of its stack. -/
def populate (space slot : Nat) (code : List UInt8) (codePages : Nat) (draws : Draws) :
    Load UserImage := do
  let layout := choose draws.code draws.stack draws.sp
  Program.forEach (List.range codePages) fun i =>
    mapFresh space (layout.bias + codeOffset + i * pageSize)
      (slice code (i * pageSize) (min (i * pageSize + pageSize) code.length - i * pageSize))
      0 false true
  Program.forEach layout.stack fun page => mapFresh space page [] 0 true false
  pure {
    entry := layout.bias + codeOffset
    stackTop := layout.stackPointer
    stackEdge := layout.stackEdge
    startup := 0
    space := space
    slot := slot }

/-- A slot and a root table for a program. -/
def newSpace (kernelRoot : Nat) (draws : Draws) : Load (Nat × Nat) := do
  let found ← allocSlot draws.slot
  match found with
  | none => Program.fail "no free user slots"
  | some slot => do
      let space ← (newAddressSpace kernelRoot).handle fun reason => do
        freeSlot slot
        Program.fail reason
      pure (space, slot)

/-- Load a flat binary. -/
def loadProgram (kernelRoot : Nat) (code : List UInt8) (draws : Draws) : Load UserImage := do
  let codePages := (code.length + pageSize - 1) / pageSize
  if code.isEmpty ∨ maxFlatImage < codePages * pageSize then
    Program.fail "program too large for a user slot"
  else do
    let (space, slot) ← newSpace kernelRoot draws
    (populate space slot code codePages draws).handle fun reason => do
      let _ ← release space slot
      Program.fail reason

/-! ### Executables -/

def elfMachine : Nat := 62

def startupMagic : Nat := 0x4d4d5552544c0001

/-- The bytes of a word. -/
def le64 (value : Nat) : List UInt8 := (List.range 8).map fun i => UInt8.ofNat (value / 256 ^ i)

/-- The block at the top of the stack. -/
def startupBlock (guard : Nat) : List UInt8 :=
  le64 startupMagic ++ le64 (max (guard / 256 * 256) 256) ++ List.replicate 16 0

/-- Map one page of a segment. -/
def loadPage (space bias : Nat) (file : File) (image : Image) (segment : Segment) (page : Nat) :
    Load Unit := do
  let (offset, data) ← Program.reads fun _ => segment.pageData file page
  mapFrame space (bias + page) offset data (segment.writable && !image.readonlyPage page)
    segment.executable

/-- Map the segments, relocate the data and map the stack. -/
def populateElf (space slot bias : Nat) (file : File) (image : Image) (layout : Layout)
    (draws : Draws) : Load UserImage := do
  Program.forEach image.segments fun segment =>
    Program.forEach segment.pages fun page => loadPage space bias file image segment page
  Program.forEach (image.relocations file) fun relocation => do
    let (target, addend) ← Program.reads fun _ => relocation
    relocatePrivateData space (bias + target) (bias + addend)
  Program.forEach layout.stack fun page =>
    if page = layout.stackEdge - pageSize then
      mapFresh space page (startupBlock draws.guard) (pageSize - 32) true false
    else mapFresh space page [] 0 true false
  pure {
    entry := bias + image.entry
    stackTop := layout.stackPointer
    stackEdge := layout.stackEdge
    startup := layout.stackEdge - 32
    space := space
    slot := slot }

/-- Load an executable. -/
def loadElf (kernelRoot : Nat) (file : File) (draws : Draws) : Load UserImage := do
  let image ← Program.reads fun _ => parse file elfMachine base imageLimit
  let layout := choose draws.code draws.stack draws.sp
  let bias ← Program.reads fun _ => image.bias layout
  let (space, slot) ← newSpace kernelRoot draws
  (populateElf space slot bias file image layout draws).handle fun reason => do
    let _ ← release space slot
    Program.fail reason

end Mmurtl.User

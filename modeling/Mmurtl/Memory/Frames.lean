/-
This file models the allocator of physical frames. A bitmap says which frames are used and a
second one which free frames are known to be zero. The allocator places itself in the first
usable range that has room for it between the reserved ones.
-/

import Mmurtl.Library.Program
import Mmurtl.Library.Memory

namespace Mmurtl.Frames

/-! ### Initialisation -/

def frameSize : Nat := 4096

def maxPhysicalMemory : Nat := 32 * 1024 * 1024 * 1024

def bitmapEntries : Nat := maxPhysicalMemory / frameSize / 32

/-- A range of physical addresses, without its end. -/
structure PhysRange where
  start : Nat
  stop : Nat
  ordered : start ≤ stop
  bounded : stop ≤ 2 ^ 52

/-- The allocator and the memory it works on. It remembers where it placed itself. -/
structure FrameAllocator where
  memory : Memory
  bitmap : Nat → Bool
  zeroed : Nat → Bool
  totalFrames : Nat
  freeFrames : Nat
  lastSearch : Nat
  header : Nat

/-- Set the bits of some frames. -/
def setBits (used : Bool) (first : Nat) : Nat → (Nat → Bool) → Nat → Bool
  | 0, bitmap => bitmap
  | count + 1, bitmap => Function.update (setBits used first count bitmap) (first + count) used

/-- Mark all frames that overlap a range as used, or those inside it as free. -/
def setRange (bitmap : Nat → Bool) (start stop : Nat) (used : Bool) : Nat → Bool :=
  let stop := min stop maxPhysicalMemory
  let first := if used then start / frameSize else (start + frameSize - 1) / frameSize
  let last := if used then (stop + frameSize - 1) / frameSize else stop / frameSize
  setBits used first (min last (bitmapEntries * 32) - first) bitmap

/-- The least frame boundary that is not below an address. -/
def alignUp (address : Nat) : Nat := (address + frameSize - 1) / frameSize * frameSize

theorem le_alignUp (address : Nat) : address ≤ alignUp address := by
  unfold alignUp frameSize
  omega

def bitmapBytes : Nat := bitmapEntries * 4

/-- The size of the header and the bitmaps. -/
def reservedBytes : Nat := (1 + (2 * bitmapBytes + frameSize - 1) / frameSize) * frameSize

/-- Where some bytes fit below a limit, from some address on: past every reserved range they would
overlap. -/
def place (reserved : List PhysRange) (bytes limit start : Nat) : Option Nat :=
  if 2 ^ 64 ≤ start + bytes then none
  else if limit < start + bytes then none
  else
    match found : reserved.find? fun range =>
        decide (start < range.stop ∧ range.start < start + bytes) with
    | some overlap =>
        if 2 ^ 64 ≤ overlap.stop + frameSize - 1 then none
        else place reserved bytes limit (alignUp overlap.stop)
    | none => some start
  termination_by limit + 1 - start
  decreasing_by
    have inside := List.find?_some found
    simp only [decide_eq_true_eq] at inside
    have later := le_alignUp overlap.stop
    omega

/-- Where the allocator places itself. -/
def headerAddress (usable reserved : List PhysRange) (minAddr : Nat) : Option Nat :=
  usable.findSome? fun range =>
    place reserved reservedBytes (min range.stop maxPhysicalMemory)
      (alignUp (max range.start minAddr))

/-- The bitmap at the beginning: only frames of usable ranges are free. -/
def initialBitmap (usable reserved : List PhysRange) (header : Nat) : Nat → Bool :=
  let freed := usable.foldl (fun bitmap range => setRange bitmap range.start range.stop false)
    fun _ => true
  let kept := reserved.foldl (fun bitmap range => setRange bitmap range.start range.stop true) freed
  setRange kept header (header + reservedBytes) true

def totalFrames (usable : List PhysRange) : Nat :=
  min ((usable.map PhysRange.stop).foldl max 0) maxPhysicalMemory / frameSize

/-- The number of free frames below a bound. -/
def countFree (bitmap : Nat → Bool) (total : Nat) : Nat :=
  ((List.range total).filter fun idx => !bitmap idx).length

/-- The allocator of some usable ranges without some reserved ones. It clears the frames it places
itself in, and with them the bitmap of zero frames. -/
def init (usable reserved : List PhysRange) (minAddr : Nat) (memory : Memory) :
    Outcome Empty FrameAllocator := do
  let header ← Outcome.expect (headerAddress usable reserved minAddr)
  let bitmap := initialBitmap usable reserved header
  let total := totalFrames usable
  pure {
    memory := memory.clear header (reservedBytes / 8)
    bitmap := bitmap
    zeroed := fun _ => false
    totalFrames := total
    freeFrames := countFree bitmap total
    lastSearch := 0
    header := header }

/-! ### Calls -/

abbrev Call (α : Type) := Program FrameAllocator Empty α

namespace FrameAllocator

def isFree (frames : FrameAllocator) (idx : Nat) : Bool := !frames.bitmap idx

/-- Clear some memory, word by word. -/
def scrub (phys bytes : Nat) : Call Unit :=
  Program.modify fun frames => { frames with memory := frames.memory.clear phys (bytes / 8) }

/-- Mark a frame as used, and clear it unless it is known to be zero. -/
def mark (idx : Nat) : Call Unit := do
  let frames ← Program.gets fun frames => frames
  Program.when (frames.zeroed idx = false) (scrub (idx * frameSize) frameSize)
  Program.modify fun frames => { frames with
    zeroed := Function.update frames.zeroed idx false
    bitmap := Function.update frames.bitmap idx true }

/-- Look at some frames, from one on and round the end, for a free one. -/
def allocateFrom (start total : Nat) : Nat → Nat → Call (Option Nat)
  | 0, _ => pure none
  | remaining + 1, i => do
      let frames ← Program.gets fun frames => frames
      let idx := (start + i) % total
      if frames.isFree idx then do
        mark idx
        Program.modify fun frames => { frames with
          freeFrames := frames.freeFrames - 1
          lastSearch := idx + 1 }
        pure (some (idx * frameSize))
      else allocateFrom start total remaining (i + 1)

/-- Allocate a frame. -/
def allocateZeroedFrame : Call (Option Nat) := do
  let frames ← Program.gets fun frames => frames
  allocateFrom frames.lastSearch frames.totalFrames frames.totalFrames 0

/-- Take some frames in a row. -/
def takeRun (first count : Nat) : Call Unit := do
  Program.forEach (List.range' first count) mark
  Program.modify fun frames => { frames with freeFrames := frames.freeFrames - count }

/-- Look at some frames, from one on, for free ones in a row. -/
def findRun (count : Nat) : Nat → Nat → Nat → Nat → Call (Option Nat)
  | 0, _, _, _ => pure none
  | remaining + 1, idx, runStart, runLen => do
      let frames ← Program.gets fun frames => frames
      if frames.isFree idx then
        let runStart := if runLen = 0 then idx else runStart
        if runLen + 1 = count then do
          takeRun runStart count
          pure (some (runStart * frameSize))
        else findRun count remaining (idx + 1) runStart (runLen + 1)
      else findRun count remaining (idx + 1) runStart 0

/-- Allocate some frames in a row. -/
def allocateZeroedContiguous (count : Nat) : Call (Option Nat) :=
  if count = 0 then pure none
  else do
    let frames ← Program.gets fun frames => frames
    findRun count frames.totalFrames 0 0 0

/-- Take the frames at an address, if all of them are free. -/
def claimRange (start count : Nat) : Call Bool := do
  let frames ← Program.gets fun frames => frames
  let first := start / frameSize
  if start % frameSize ≠ 0 then pure false
  else if frames.totalFrames < first ∨ frames.totalFrames - first < count ∨
      ¬(List.range' first count).all frames.isFree then pure false
  else do
    takeRun first count
    pure true

/-- Free a frame. It is cleared while it is still marked as used. -/
def deallocateFrame (phys : Nat) : Call Unit := do
  Program.require (phys % frameSize = 0)
  let frames ← Program.gets fun frames => frames
  let idx := phys / frameSize
  Program.require (idx < frames.totalFrames)
  Program.when (frames.isFree idx = false) do
    scrub phys frameSize
    Program.modify fun frames => { frames with
      zeroed := Function.update frames.zeroed idx true
      bitmap := Function.update frames.bitmap idx false
      freeFrames := frames.freeFrames + 1 }

end FrameAllocator

end Mmurtl.Frames

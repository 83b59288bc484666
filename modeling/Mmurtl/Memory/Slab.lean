/-
This file models the slab allocator of the kernel heap. A slab is a span of memory cut into
slots of one size. The free slots of a slab form a list whose links are stored in the slots
themselves, hidden by a secret and by the address they are stored at. The slabs of one cache,
which is a domain and a size class, form a list of their own.
-/

import Mmurtl.Library.Program
import Mmurtl.Library.Memory

namespace Mmurtl.Heap

/-! ### Requests -/

def page : Nat := 4096

def domains : Nat := 3

def minShift : Nat := 4

def maxShift : Nat := 24

/-- The number of size classes. -/
def classes : Nat := maxShift - minShift + 1

def maxSlabs : Nat := 4096

inductive Error where
  | layout
  | range
  | alignment
  | doubleFree
  | corrupt
  | exhausted
  deriving DecidableEq

/-- The layout of an object: its alignment is a power of two, and its size, rounded up to the
alignment, is within the limit of the language. -/
structure Layout where
  size : Nat
  align : Nat
  power : ∃ shift, align = 2 ^ shift
  fits : (size + align - 1) / align * align < 2 ^ 63

/-- What a layout needs in a domain: the span of a slab and its alignment, the cache and the size
of a slot. -/
structure Request where
  span : Nat
  align : Nat
  cache : Nat
  stride : Nat
  deriving DecidableEq

/-- The least power of two that is not below a number, if a machine word can hold it. -/
def checkedNextPowerOfTwo (number : Nat) : Option Nat :=
  ((List.range 64).map (2 ^ ·)).find? fun power => number ≤ power

def request (layout : Layout) (domain : Nat) : Outcome Error Request :=
  if domains ≤ domain then .error .layout
  else
    match checkedNextPowerOfTwo (max (max layout.size layout.align) (2 ^ minShift)) with
    | none => .error .layout
    | some stride =>
        if 2 ^ maxShift < stride then .error .layout
        else .ok {
          span := max stride page
          align := max stride page
          cache := domain * classes + (Nat.log2 stride - minShift)
          stride := stride }

/-! ### Slabs -/

/-- A slab: where it is, how it is cut, and which of its slots are free. The cache's next slab is
a number that counts from one. -/
structure Slab where
  base : Nat
  span : Nat
  stride : Nat
  cache : Nat
  next : Nat
  head : Nat
  free : Nat
  live : Nat → Bool

/-- The slot at a pointer. -/
def Slab.slot (slab : Slab) (pointer : Nat) : Outcome Error Nat :=
  if slab.base ≤ pointer ∧ pointer - slab.base < slab.span then
    if (pointer - slab.base) % slab.stride ≠ 0 then .error .alignment
    else .ok ((pointer - slab.base) / slab.stride)
  else .error .range

/-- Whether a slot is live. The bitmap has 256 bits. -/
def Slab.isLive (slab : Slab) (slot : Nat) : Outcome Error Bool :=
  if slot < 256 then .ok (slab.live slot) else .panic

/-- Check that a pointer is to a free slot. -/
def Slab.validateFree (slab : Slab) (pointer : Nat) : Outcome Error Unit := do
  let slot ← slab.slot pointer
  let live ← slab.isLive slot
  if live then .error .corrupt else .ok ()

/-- The allocator and the memory it works on: the slabs in use, the first slab of each cache, and
what is accounted for. -/
structure Slabs where
  memory : Memory
  pages : List Slab
  lists : Nat → Nat
  secret : Nat
  liveBytes : Nat
  reservedBytes : Nat
  allocations : Nat

abbrev Call (α : Type) := Program Slabs Error α

namespace Slabs

/-- An allocator without slabs, and with a secret. -/
def new (memory : Memory) (secret : Nat) : Slabs where
  memory := memory
  pages := []
  lists := fun _ => 0
  secret := secret
  liveBytes := 0
  reservedBytes := 0
  allocations := 0

def hasMetadata (slabs : Slabs) : Prop := slabs.pages.length < maxSlabs

instance (slabs : Slabs) : Decidable slabs.hasMetadata :=
  inferInstanceAs (Decidable (slabs.pages.length < maxSlabs))

/-- Write a word to memory. -/
def write (address value : Nat) : Call Unit :=
  Program.modify fun slabs => { slabs with memory := slabs.memory.writeWord address value }

/-- Exchange every position, from the last one down, with one that is not above it. -/
def shuffle (random : Nat → Nat) : Nat → Nat → Array Nat → Array Nat
  | _, 0, order => order
  | draw, i + 1, order =>
      shuffle random (draw + 1) i (order.swapIfInBounds (i + 1) (random draw % (i + 2)))

/-- The address of the first of some slots, or the end. -/
def firstOf (base stride : Nat) : List Nat → Nat
  | [] => 0
  | slot :: _ => base + slot * stride

/-- Link slots of a new slab, each to the one after it. -/
def thread (base stride : Nat) : List Nat → Call Unit
  | [] => pure ()
  | slot :: rest => do
      let secret ← Program.gets Slabs.secret
      let address := base + slot * stride
      write address (firstOf base stride rest ^^^ secret ^^^ address)
      thread base stride rest

/-- Stop with an error unless a condition holds. -/
def check (condition : Prop) [Decidable condition] (reason : Error) : Call Unit :=
  Program.when (¬condition) (Program.fail reason)

/-- Put a span of memory under the control of the allocator. -/
def add (base : Nat) (req : Request) (random : Nat → Nat) : Call Unit := do
  let slabs ← Program.gets fun slabs => slabs
  check slabs.hasMetadata .exhausted
  check (req.span = max req.stride page ∧ req.align = req.span ∧
    req.cache < domains * classes) .layout
  check (base ≠ 0 ∧ base % req.align = 0 ∧ base + req.span < 2 ^ 64) .alignment
  check (∀ last ∈ slabs.pages.getLast?, last.base + last.span ≤ base) .range
  let count := req.span / req.stride
  let order := (shuffle random 0 (count - 1) (Array.range count)).toList
  thread base req.stride order
  let first ← Program.expect order.head?
  Program.modify fun slabs => { slabs with
    pages := slabs.pages ++ [{
      base := base
      span := req.span
      stride := req.stride
      cache := req.cache
      next := slabs.lists req.cache
      head := base + first * req.stride
      free := count
      live := fun _ => false }]
    lists := Function.update slabs.lists req.cache (slabs.pages.length + 1)
    reservedBytes := slabs.reservedBytes + req.span }

/-- Take the first free slot of a slab. -/
def take (index : Nat) (slab : Slab) : Call Nat := do
  let slabs ← Program.gets fun slabs => slabs
  let pointer := slab.head
  Program.reads fun _ => slab.validateFree pointer
  let next := slabs.memory.readWord pointer ^^^ slabs.secret ^^^ pointer
  Program.when (next ≠ 0) do
    Program.reads fun _ => slab.validateFree next
    check (next ≠ pointer) .corrupt
  check (slab.free = 1 ↔ next = 0) .corrupt
  let slot ← Program.reads fun _ => slab.slot pointer
  Program.modify fun slabs => { slabs with
    pages := slabs.pages.set index { slab with
      live := Function.update slab.live slot true
      head := next
      free := slab.free - 1 } }
  write pointer 0
  Program.modify fun slabs => { slabs with
    liveBytes := slabs.liveBytes + slab.stride
    allocations := slabs.allocations + 1 }
  pure pointer

/-- Look for a free slot in the slabs of a cache, from one slab on. -/
def search (cache : Nat) : Nat → Nat → Call (Option Nat)
  | _, 0 => pure none
  | 0, _ + 1 => Program.fail .corrupt
  | remaining + 1, index + 1 => do
      let pages ← Program.gets Slabs.pages
      check (index < pages.length) .corrupt
      let slab ← Program.expect pages[index]?
      check (slab.cache = cache) .corrupt
      if slab.free ≠ 0 then do
        let pointer ← take index slab
        pure (some pointer)
      else do
        check (slab.head = 0) .corrupt
        search cache remaining slab.next

/-- Allocate a slot, if a slab of the cache has a free one. The search visits at most as many
slabs as are in use. -/
def allocate (layout : Layout) (domain : Nat) : Call (Option Nat) := do
  let req ← Program.reads fun _ => request layout domain
  let slabs ← Program.gets fun slabs => slabs
  search req.cache slabs.pages.length (slabs.lists req.cache)

/-- Clear a slot, word by word. -/
def scrub (pointer stride : Nat) : Call Unit :=
  Program.modify fun slabs =>
    { slabs with memory := slabs.memory.clear pointer ((stride + 7) / 8) }

/-- Check the first link of a slab. -/
def validateHead (slab : Slab) : Call Unit :=
  if slab.free ≠ 0 then Program.reads fun _ => slab.validateFree slab.head
  else check (slab.head = 0) .corrupt

/-- Give a slot back to its slab. -/
def deallocate (pointer : Nat) (layout : Layout) (domain : Nat) : Call Unit := do
  let req ← Program.reads fun _ => request layout domain
  let slabs ← Program.gets fun slabs => slabs
  let below := (slabs.pages.takeWhile fun slab => slab.base ≤ pointer).length
  check (below ≠ 0) .range
  let slab ← Program.expect slabs.pages[below - 1]?
  let slot ← Program.reads fun _ => slab.slot pointer
  check (slab.cache = req.cache) .layout
  let live ← Program.reads fun _ => slab.isLive slot
  check (live = true) .doubleFree
  validateHead slab
  scrub pointer slab.stride
  write pointer (slab.head ^^^ slabs.secret ^^^ pointer)
  Program.modify fun slabs => { slabs with
    pages := slabs.pages.set (below - 1) { slab with
      live := Function.update slab.live slot false
      head := pointer
      free := slab.free + 1 }
    liveBytes := slabs.liveBytes - slab.stride
    allocations := slabs.allocations - 1 }

end Slabs

end Mmurtl.Heap

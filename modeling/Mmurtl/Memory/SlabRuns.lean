/-
This file proves the contract of the slab allocator over its runs. A run interleaves calls of
the allocator with writes of its clients, who write to their live blocks and to memory the
allocator does not have. The blocks that are live, and all blocks that ever were, are recorded
from the results of the calls.
-/

import Mmurtl.Memory.FreeSlots
import Mmurtl.Library.Transition
import Mmurtl.Library.Update

namespace Mmurtl.Heap

open Transition List Function

variable {index i j slot address domain pointer secret : Nat} {slab first second new : Slab}
  {pages : List Slab} {layout : Layout} {req : Request} {memory : Memory}

/-! ### Runs -/

/-- A block handed out: its address, its size and the cache it is from. -/
structure Block where
  pointer : Nat
  stride : Nat
  cache : Nat
  deriving DecidableEq

def Block.Holds (block : Block) (address : Nat) : Prop :=
  block.pointer ≤ address ∧ address < block.pointer + block.stride

/-- The allocator, the live blocks and all blocks ever handed out. -/
structure World where
  slabs : Slabs
  blocks : List Block
  issued : List Block

inductive Action where
  | write (address : Nat) (value : UInt8)
  | add (base : Nat) (layout : Layout) (domain : Nat) (random : Nat → Nat)
  | allocate (layout : Layout) (domain : Nat)
  | deallocate (pointer : Nat) (layout : Layout) (domain : Nat)

variable {action : Action} {world : World}

/-- Clients write to live blocks and to memory outside all slabs, give zero memory to the
allocator, and free live blocks with the cache they were allocated from. -/
def World.Permitted (world : World) : Action → Prop
  | .write address _ =>
      (∃ block ∈ world.blocks, block.Holds address) ∨
        ∀ slab ∈ world.slabs.pages, address < slab.base ∨ slab.base + slab.span ≤ address
  | .add base layout domain _ =>
      ∃ req, request layout domain = .ok req ∧ world.slabs.memory.ZeroOn base req.span
  | .allocate _ _ => True
  | .deallocate pointer layout domain =>
      ∃ req, request layout domain = .ok req ∧
        ∃ block ∈ world.blocks, block.pointer = pointer ∧ block.cache = req.cache

/-- What an action does, with the blocks recorded. -/
def World.after (world : World) : Action → World
  | .write address value =>
      { world with slabs := { world.slabs with
        memory := Function.update world.slabs.memory address value } }
  | .add base layout domain random =>
      match request layout domain with
      | .ok req => { world with slabs := (Slabs.add base req random world.slabs).2 }
      | _ => world
  | .allocate layout domain =>
      match request layout domain, Slabs.allocate layout domain world.slabs with
      | .ok req, (.ok (some pointer), slabs) =>
          let block : Block := ⟨pointer, req.stride, req.cache⟩
          ⟨slabs, block :: world.blocks, block :: world.issued⟩
      | _, (_, slabs) => { world with slabs := slabs }
  | .deallocate pointer layout domain =>
      match Slabs.deallocate pointer layout domain world.slabs with
      | (.ok _, slabs) =>
          { world with
            slabs := slabs
            blocks := world.blocks.eraseP fun block => block.pointer = pointer }
      | (_, slabs) => { world with slabs := slabs }

/-- The runs of the allocator, from any memory and secret. -/
def heapSystem : LabelledSystem World Action where
  init world := ∃ memory secret, secret < 2 ^ 64 ∧ world = ⟨Slabs.new memory secret, [], []⟩
  step world action next := world.Permitted action ∧ next = world.after action

/-! ### The contract -/

/-- Every slot of every slab of a cache is a live block. -/
def World.Full (world : World) (cache : Nat) : Prop :=
  ∀ slab ∈ world.slabs.pages, slab.cache = cache → ∀ slot, slot * slab.stride < slab.span →
    ∃ block ∈ world.blocks, block.pointer = slab.base + slot * slab.stride

/-- A new block is as its layout says, zero, apart from the live blocks, and where it shares an
address with a block that ever was, it is from the same cache. -/
structure World.Fresh (world : World) (layout : Layout) (block : Block) (after : Slabs) : Prop where
  aligned : layout.align ∣ block.pointer
  long : layout.size ≤ block.stride
  zero : after.memory.ZeroOn block.pointer block.stride
  apart : ∀ other ∈ world.blocks, ∀ address, block.Holds address → ¬other.Holds address
  owned : ∀ other ∈ world.issued, ∀ address, block.Holds address → other.Holds address →
    other.cache = block.cache

/-- What the calls promise. An allocation fails for its layout only, a live block is always
freed, and no call panics. -/
def World.Contract (world : World) : Action → Prop
  | .write _ _ => True
  | .add base layout domain random => ∀ req, request layout domain = .ok req →
      (Slabs.add base req random).Meets world.slabs (fun _ _ => True) fun _ _ => True
  | .allocate layout domain =>
      (Slabs.allocate layout domain).Meets world.slabs
        (fun result after => ∃ req, request layout domain = .ok req ∧
          (result = none ↔ world.Full req.cache) ∧
          ∀ pointer, result = some pointer →
            world.Fresh layout ⟨pointer, req.stride, req.cache⟩ after)
        fun reason _ => reason = .layout ∧ request layout domain = .error .layout
  | .deallocate pointer layout domain =>
      (Slabs.deallocate pointer layout domain).Meets world.slabs (fun _ _ => True) fun _ _ => False

/-- The counters say what is live. -/
def World.Counted (world : World) : Prop :=
  world.slabs.liveBytes = (world.blocks.map Block.stride).sum ∧
    world.slabs.allocations = world.blocks.length

/-! ### The invariant -/

/-- The block of a slot. -/
def Slab.block (slab : Slab) (slot : Nat) : Block := ⟨slab.address slot, slab.stride, slab.cache⟩

/-- The blocks the bitmaps of the slabs say are live. -/
def LiveBlock (pages : List Slab) (block : Block) : Prop :=
  ∃ (index : Nat) (slab : Slab) (slot : Nat), pages[index]? = some slab ∧ slot < slab.count ∧
    slab.live slot = true ∧ block = slab.block slot

/-- The slabs are sound and in order, their lists are complete, and the live blocks are those of
the bitmaps. -/
structure Kept (world : World) : Prop where
  secret : world.slabs.secret < 2 ^ 64
  sound : ∀ slab ∈ world.slabs.pages, Sound world.slabs.memory world.slabs.secret slab
  ordered : world.slabs.pages.Pairwise fun first second => first.base + first.span ≤ second.base
  lists : ∀ cache, world.slabs.lists cache =
    latest world.slabs.pages cache world.slabs.pages.length
  nexts : ∀ index slab, world.slabs.pages[index]? = some slab →
    slab.next = latest world.slabs.pages slab.cache index
  blocks : ∀ block, block ∈ world.blocks ↔ LiveBlock world.slabs.pages block
  distinct : world.blocks.Nodup
  counted : world.Counted
  issued : ∀ block ∈ world.issued, ∃ slab ∈ world.slabs.pages, slab.cache = block.cache ∧
    slab.base ≤ block.pointer ∧ block.pointer + block.stride ≤ slab.base + slab.span

section Kept

variable {world : World} (kept : Kept world)
include kept

theorem Kept.formed (there : world.slabs.pages[index]? = some slab) : slab.Formed :=
  (kept.sound slab (mem_of_getElem? there)).formed

/-- Different slabs do not overlap. -/
theorem Kept.spans_apart (here : world.slabs.pages[i]? = some first)
    (there : world.slabs.pages[j]? = some second) (different : i ≠ j) :
    first.base + first.span ≤ second.base ∨ second.base + second.span ≤ first.base := by
  obtain ⟨_, rfl⟩ := List.getElem?_eq_some_iff.mp here
  obtain ⟨_, rfl⟩ := List.getElem?_eq_some_iff.mp there
  rcases Nat.lt_or_gt_of_ne different with less | more
  · exact Or.inl (pairwise_iff_getElem.mp kept.ordered i j _ _ less)
  · exact Or.inr (pairwise_iff_getElem.mp kept.ordered j i _ _ more)

/-- Two slots that share an address are one. -/
theorem Kept.slots_apart {other : Nat} (here : world.slabs.pages[i]? = some first)
    (inside : slot < first.count) (there : world.slabs.pages[j]? = some second)
    (within : other < second.count) (holds : (first.block slot).Holds address)
    (holds' : (second.block other).Holds address) : i = j ∧ slot = other := by
  obtain ⟨_, _⟩ : first.address slot ≤ address ∧ address < first.address slot + first.stride :=
    holds
  obtain ⟨_, _⟩ :
      second.address other ≤ address ∧ address < second.address other + second.stride := holds'
  have top := (kept.formed here).address_le inside
  have top' := (kept.formed there).address_le within
  have bottom : first.base ≤ first.address slot := Nat.le_add_right ..
  have bottom' : second.base ≤ second.address other := Nat.le_add_right ..
  by_cases same : i = j
  · subst same
    rw [here] at there
    cases there
    refine ⟨rfl, ?_⟩
    by_contra different
    have apart := first.address_apart different
    omega
  · have apart := kept.spans_apart here there same
    omega

/-- The first address of a slot is in it. -/
theorem Kept.holds_pointer (here : world.slabs.pages[i]? = some slab) (slot : Nat) :
    (slab.block slot).Holds (slab.address slot) :=
  ⟨Nat.le_refl _, Nat.lt_add_of_pos_right (kept.formed here).stride_pos⟩

theorem Kept.blocks_inj {first second : Block} (listed : first ∈ world.blocks)
    (listed' : second ∈ world.blocks) (same : first.pointer = second.pointer) : first = second := by
  obtain ⟨i, slab, slot, here, inside, _, rfl⟩ := (kept.blocks first).mp listed
  obtain ⟨j, other, slot', there, within, _, rfl⟩ := (kept.blocks second).mp listed'
  have pointers : slab.address slot = other.address slot' := same
  have holds : (slab.block slot).Holds (other.address slot') := pointers ▸ kept.holds_pointer here _
  obtain ⟨rfl, rfl⟩ := kept.slots_apart here inside there within holds (kept.holds_pointer there _)
  rw [here] at there
  cases there
  rfl

end Kept

/-- Two slabs that differ in their slots only. -/
structure Reshaped (slab new : Slab) : Prop where
  base : new.base = slab.base
  span : new.span = slab.span
  stride : new.stride = slab.stride
  cache : new.cache = slab.cache
  next : new.next = slab.next

theorem reshaped_taken (slab : Slab) (slot next : Nat) : Reshaped slab (slab.taken slot next) :=
  ⟨rfl, rfl, rfl, rfl, rfl⟩

theorem reshaped_given (slab : Slab) (slot : Nat) : Reshaped slab (slab.given slot) :=
  ⟨rfl, rfl, rfl, rfl, rfl⟩

theorem map_set_eq {α : Type} (select : Slab → α) (there : pages[index]? = some slab)
    (same : select new = select slab) : (pages.set index new).map select = pages.map select := by
  rw [map_set, same]
  refine ext_getElem? fun i => ?_
  rw [getElem?_set]
  split
  case isTrue here =>
    subst here
    rw [length_map, getElem?_map, there, if_pos (List.getElem?_eq_some_iff.mp there).1]
    rfl
  case isFalse => rfl

/-- Changing the slots of one slab, and memory in one of them only. -/
theorem Kept.reshape (kept : Kept world) (there : world.slabs.pages[index]? = some slab)
    (inside : slot < slab.count) (reshaped : Reshaped slab new) {after : Slabs}
    {blocks issued : List Block} (pages : after.pages = world.slabs.pages.set index new)
    (lists : after.lists = world.slabs.lists) (secret : after.secret = world.slabs.secret)
    (agree : ∀ byte, ¬(slab.block slot).Holds byte → after.memory byte = world.slabs.memory byte)
    (sound : Sound after.memory after.secret new)
    (live : ∀ block, block ∈ blocks ↔ LiveBlock after.pages block) (distinct : blocks.Nodup)
    (counted : World.Counted ⟨after, blocks, issued⟩)
    (known : ∀ block ∈ issued, block ∈ world.issued ∨ block = slab.block slot) :
    Kept ⟨after, blocks, issued⟩ := by
  have caches : ∀ i : Nat, after.pages[i]?.map Slab.cache =
      world.slabs.pages[i]?.map Slab.cache := by
    intro i
    rw [← getElem?_map, ← getElem?_map, pages, map_set_eq Slab.cache there reshaped.cache]
  refine ⟨by rw [secret]; exact kept.secret, ?_, ?_, ?_, ?_, live, distinct, counted, ?_⟩
  · intro other listed
    obtain ⟨i, here⟩ := mem_iff_getElem?.mp listed
    rw [pages] at here
    rcases set_cases here with ⟨rfl, rfl⟩ | ⟨different, old⟩
    · exact sound
    · rw [secret]
      refine (kept.sound other (mem_of_getElem? old)).congr ?_
      rintro _ ⟨_, within, _, rfl⟩ byte low high
      refine agree byte fun holds => different ?_
      exact (kept.slots_apart old within there inside ⟨low, high⟩ holds).1
  · have spans : after.pages.map (fun slab => (slab.base, slab.span)) =
        world.slabs.pages.map (fun slab => (slab.base, slab.span)) := by
      rw [pages]
      exact map_set_eq _ there (Prod.ext reshaped.base reshaped.span)
    have ordered : (world.slabs.pages.map fun slab => (slab.base, slab.span)).Pairwise
        fun first second => first.1 + first.2 ≤ second.1 := pairwise_map.mpr kept.ordered
    rw [← spans] at ordered
    exact pairwise_map.mp ordered
  · intro cache
    rw [lists, kept.lists cache, latest_congr fun i _ => caches i, pages, length_set]
  · intro i other here
    rw [latest_congr fun i _ => caches i]
    rw [pages] at here
    rcases set_cases here with ⟨rfl, rfl⟩ | ⟨_, old⟩
    · rw [reshaped.next, reshaped.cache]
      exact kept.nexts i slab there
    · exact kept.nexts i other old
  · have place : ∀ some_ ∈ world.slabs.pages, ∃ now ∈ after.pages,
        now.cache = some_.cache ∧ now.base = some_.base ∧ now.span = some_.span := by
      intro some_ listed
      obtain ⟨i, here⟩ := mem_iff_getElem?.mp listed
      by_cases same : index = i
      · subst same
        rw [there] at here
        cases here
        have at_ : after.pages[index]? = some new := by
          rw [pages, getElem?_set_self (List.getElem?_eq_some_iff.mp there).1]
        exact ⟨new, mem_of_getElem? at_, reshaped.cache, reshaped.base, reshaped.span⟩
      · have at_ : after.pages[i]? = some some_ := by
          rw [pages, getElem?_set_ne same]
          exact here
        exact ⟨some_, mem_of_getElem? at_, rfl, rfl, rfl⟩
    intro block listed
    rcases known block listed with old | rfl
    · obtain ⟨some_, member, cache, low, high⟩ := kept.issued block old
      obtain ⟨now, memberNow, sameCache, sameBase, sameSpan⟩ := place some_ member
      exact ⟨now, memberNow, sameCache.trans cache, sameBase ▸ low,
        by rw [sameBase, sameSpan]; exact high⟩
    · obtain ⟨now, memberNow, sameCache, sameBase, sameSpan⟩ :=
        place slab (mem_of_getElem? there)
      refine ⟨now, memberNow, sameCache, ?_, ?_⟩
      · rw [sameBase]
        exact Nat.le_add_right ..
      · rw [sameBase, sameSpan]
        exact (kept.formed there).address_le inside

/-- The live blocks after one slab changed: those of its new bitmap, and those of the others. -/
theorem liveBlock_set (there : pages[index]? = some slab) (new : Slab) (block : Block) :
    LiveBlock (pages.set index new) block ↔
      (∃ slot, slot < new.count ∧ new.live slot = true ∧ block = new.block slot) ∨
      ∃ (i : Nat) (other : Slab) (slot : Nat), i ≠ index ∧ pages[i]? = some other ∧
        slot < other.count ∧ other.live slot = true ∧ block = other.block slot := by
  have short := (List.getElem?_eq_some_iff.mp there).1
  constructor
  · rintro ⟨i, other, slot, here, inside, live, rfl⟩
    rcases set_cases here with ⟨rfl, rfl⟩ | ⟨different, old⟩
    · exact Or.inl ⟨slot, inside, live, rfl⟩
    · exact Or.inr ⟨i, other, slot, different, old, inside, live, rfl⟩
  · rintro (⟨slot, inside, live, rfl⟩ | ⟨i, other, slot, different, here, inside, live, rfl⟩)
    · exact ⟨index, new, slot, getElem?_set_self short, inside, live, rfl⟩
    · refine ⟨i, other, slot, ?_, inside, live, rfl⟩
      rw [getElem?_set_ne (Ne.symm different)]
      exact here

theorem liveBlock_cases (there : pages[index]? = some slab) (block : Block) :
    LiveBlock pages block ↔
      (∃ slot, slot < slab.count ∧ slab.live slot = true ∧ block = slab.block slot) ∨
      ∃ i other slot, i ≠ index ∧ pages[i]? = some other ∧
        slot < other.count ∧ other.live slot = true ∧ block = other.block slot := by
  have same : pages.set index slab = pages := by
    obtain ⟨short, rfl⟩ := List.getElem?_eq_some_iff.mp there
    exact set_getElem_self short
  have cases := liveBlock_set there slab block
  rw [same] at cases
  exact cases

/-! ### Allocation -/

section

variable (kept : Kept world)
include kept

theorem allocate_meets (layout : Layout) (domain : Nat) :
    (Slabs.allocate layout domain).Meets world.slabs
      (fun result after => ∃ req, request layout domain = .ok req ∧
        ((result = none ∧ after = world.slabs ∧ ∀ slab ∈ world.slabs.pages,
            slab.cache = req.cache → slab.free = 0) ∨
          ∃ index slab slot, result = some (slab.address slot) ∧
            world.slabs.pages[index]? = some slab ∧ slab.cache = req.cache ∧
            Taken world.slabs index slab slot after))
      fun reason after => reason = .layout ∧ request layout domain = .error .layout ∧
        after = world.slabs := by
  rcases request_cases layout domain with ⟨req, granted⟩ | refused
  · refine reads_returns granted (.gets ?_)
    rw [kept.lists req.cache]
    refine (search_meets kept.sound kept.nexts _ _ (Nat.le_refl _) (Nat.le_refl _)).mono ?_
      fun _ _ => False.elim
    rintro _ _ (⟨rfl, rfl, full⟩ | taken)
    · refine ⟨req, granted, Or.inl ⟨rfl, rfl, fun slab listed same => ?_⟩⟩
      obtain ⟨index, there⟩ := mem_iff_getElem?.mp listed
      exact full index (List.getElem?_eq_some_iff.mp there).1 slab there same
    · exact ⟨req, granted, Or.inr taken⟩
  · exact .of_error (Program.bind_of_error (Prod.ext refused rfl)) ⟨rfl, refused, rfl⟩

/-- A slot that is free is no live block. -/
theorem Kept.not_live (there : world.slabs.pages[index]? = some slab) (inside : slot < slab.count)
    (free : slab.live slot = false) {block : Block} (listed : block ∈ world.blocks)
    (holds : (slab.block slot).Holds address) : ¬block.Holds address := by
  intro holds'
  obtain ⟨i, _, _, here, within, live, rfl⟩ := (kept.blocks block).mp listed
  obtain ⟨rfl, rfl⟩ := kept.slots_apart there inside here within holds holds'
  rw [there] at here
  cases here
  rw [free] at live
  cases live

/-- A slab of a cache has slots of the size the cache is for. -/
theorem Kept.stride_eq (there : world.slabs.pages[index]? = some slab)
    (granted : request layout domain = .ok req) (same : slab.cache = req.cache) :
    slab.stride = req.stride := by
  rw [(kept.formed there).stride, (request_eq_ok granted).2.1, same]

theorem Kept.full_iff (cache : Nat) :
    world.Full cache ↔ ∀ slab ∈ world.slabs.pages, slab.cache = cache → slab.free = 0 := by
  constructor
  · intro full slab listed same
    rw [(kept.sound slab listed).free_eq_zero_iff]
    intro slot inside
    obtain ⟨index, there⟩ := mem_iff_getElem?.mp listed
    have formed := kept.formed there
    have below : slot * slab.stride < slab.span := by
      have top := formed.address_le inside
      have positive := formed.stride_pos
      unfold Slab.address at top
      omega
    obtain ⟨block, member, pointer⟩ := full slab listed same slot below
    by_contra dead
    have holds : block.Holds (slab.address slot) := by
      obtain ⟨i, other, slot', here, _, _, rfl⟩ := (kept.blocks block).mp member
      have equal : other.address slot' = slab.address slot := pointer
      exact equal ▸ kept.holds_pointer here _
    exact kept.not_live there inside ((Bool.not_eq_true _).mp dead) member
      (kept.holds_pointer there _) holds
  · intro full slab listed same slot below
    obtain ⟨index, there⟩ := mem_iff_getElem?.mp listed
    have formed := kept.formed there
    have inside : slot < slab.count :=
      Nat.lt_of_mul_lt_mul_right (by rw [formed.count_mul]; exact below)
    have live := ((kept.sound slab listed).free_eq_zero_iff.mp (full slab listed same)) slot inside
    exact ⟨slab.block slot, (kept.blocks _).mpr ⟨index, slab, slot, there, inside, live, rfl⟩, rfl⟩

/-- An allocation keeps its contract. -/
theorem Kept.allocate_contract (layout : Layout) (domain : Nat) :
    world.Contract (.allocate layout domain) := by
  refine (allocate_meets kept layout domain).mono ?_ fun _ _ refused => ⟨refused.1, refused.2.1⟩
  rintro _ _ ⟨req, granted, outcome⟩
  refine ⟨req, granted, ?_⟩
  rw [kept.full_iff]
  rcases outcome with ⟨rfl, _, full⟩ | ⟨index, slab, slot, rfl, there, same, taken⟩
  · exact ⟨iff_of_true rfl full, nofun⟩
  · have stride := kept.stride_eq there granted same
    obtain ⟨_, _, _, _, long, divides⟩ := request_eq_ok granted
    have holds : ∀ {address : Nat},
        Block.Holds ⟨slab.address slot, req.stride, req.cache⟩ address →
          (slab.block slot).Holds address := by
      intro address inside
      rw [Block.Holds, ← stride] at inside
      exact inside
    refine ⟨iff_of_false nofun fun full => ?_, ?_⟩
    · have live := ((kept.sound slab (mem_of_getElem? there)).free_eq_zero_iff.mp
        (full slab (mem_of_getElem? there) same)) slot taken.inside
      rw [taken.free] at live
      cases live
    · rintro _ ⟨⟩
      refine ⟨?_, long, ?_, ?_, ?_⟩
      · rw [← stride] at divides
        exact Nat.dvd_trans divides ((kept.formed there).stride_dvd_address slot)
      · rw [← stride]
        exact taken.zero
      · exact fun other member address inside =>
          kept.not_live there taken.inside taken.free member (holds inside)
      · intro other member address inside inOther
        obtain ⟨_, listed, cache, _, _⟩ := kept.issued other member
        obtain ⟨i, here⟩ := mem_iff_getElem?.mp listed
        obtain ⟨above, below⟩ := holds inside
        obtain ⟨_, _⟩ := inOther
        have top := (kept.formed there).address_le taken.inside
        have bottom : slab.base ≤ slab.address slot := Nat.le_add_right ..
        by_cases equal : i = index
        · subst equal
          rw [there] at here
          cases here
          exact cache.symm.trans same
        · have apart := kept.spans_apart here there equal
          have above : slab.address slot ≤ address := above
          have below : address < slab.address slot + slab.stride := below
          omega

theorem Kept.allocate (layout : Layout) (domain : Nat) :
    Kept (world.after (.allocate layout domain)) := by
  rcases (allocate_meets kept layout domain).cases with
    ⟨result, after, run, req, granted, outcome⟩ | ⟨reason, after, run, _, refused, rfl⟩
  · rcases outcome with ⟨rfl, rfl, _⟩ | ⟨_, slab, slot, rfl, there, same, taken⟩
    · simp only [World.after, granted, run]
      exact kept
    · simp only [World.after, granted, run]
      have stride := kept.stride_eq there granted same
      have block : (⟨slab.address slot, req.stride, req.cache⟩ : Block) = slab.block slot := by
        rw [← stride, ← same]
        rfl
      obtain ⟨next, rfl, sound⟩ := taken.effect
      have fresh : slab.block slot ∉ world.blocks := fun listed =>
        kept.not_live there taken.inside taken.free listed (kept.holds_pointer there _)
          (kept.holds_pointer there _)
      rw [block]
      refine kept.reshape there taken.inside (reshaped_taken slab slot next) rfl rfl rfl ?_ sound
        ?_ ?_ ?_ ?_
      · intro byte outside
        have large := (kept.formed there).stride_ge
        have outside : ¬(slab.address slot ≤ byte ∧ byte < slab.address slot + slab.stride) :=
          outside
        exact Memory.writeWord_of_outside _ _ (by omega)
      · intro other
        rw [mem_cons, kept.blocks, liveBlock_cases there, liveBlock_set there, ← or_assoc]
        refine or_congr_left ?_
        constructor
        · rintro (rfl | ⟨slot', inside, live, rfl⟩)
          · exact ⟨slot, taken.inside, update_self .., rfl⟩
          · refine ⟨slot', inside, ?_, rfl⟩
            show Function.update slab.live slot true slot' = true
            by_cases equal : slot' = slot
            · rw [equal, update_self]
            · rw [update_of_ne equal]
              exact live
        · rintro ⟨slot', inside, live, rfl⟩
          have live : Function.update slab.live slot true slot' = true := live
          by_cases equal : slot' = slot
          · exact Or.inl (congrArg slab.block equal)
          · rw [update_of_ne equal] at live
            exact Or.inr ⟨slot', inside, live, rfl⟩
      · exact nodup_cons.mpr ⟨fresh, kept.distinct⟩
      · refine ⟨?_, congrArg (· + 1) kept.counted.2⟩
        show world.slabs.liveBytes + slab.stride = slab.stride + (world.blocks.map Block.stride).sum
        rw [kept.counted.1, Nat.add_comm]
      · intro _ listed
        rcases mem_cons.mp listed with rfl | old
        · exact Or.inr rfl
        · exact Or.inl old
  · simp only [World.after, run, refused]
    exact kept

/-! ### Deallocation -/

/-- The slab a pointer is in is the last one that starts below it. -/
theorem Kept.below_eq (there : world.slabs.pages[index]? = some slab) (low : slab.base ≤ pointer)
    (high : pointer < slab.base + slab.span) :
    (world.slabs.pages.takeWhile fun slab => slab.base ≤ pointer).length = index + 1 := by
  have short := (List.getElem?_eq_some_iff.mp there).1
  have before : ∀ other ∈ world.slabs.pages.take (index + 1),
      decide (other.base ≤ pointer) = true := by
    intro other listed
    obtain ⟨i, here⟩ := mem_iff_getElem?.mp listed
    rw [getElem?_take] at here
    split at here
    case isFalse => cases here
    case isTrue less =>
      refine decide_eq_true ?_
      by_cases same : i = index
      · subst same
        rw [there] at here
        cases here
        exact low
      · obtain ⟨shorter, rfl⟩ := List.getElem?_eq_some_iff.mp here
        obtain ⟨_, rfl⟩ := List.getElem?_eq_some_iff.mp there
        have sorted := pairwise_iff_getElem.mp kept.ordered i index shorter short (by omega)
        omega
  have after : (world.slabs.pages.drop (index + 1)).takeWhile
      (fun slab => slab.base ≤ pointer) = [] := by
    cases rest : world.slabs.pages.drop (index + 1) with
    | nil => rfl
    | cons other more =>
      have here : world.slabs.pages[index + 1]? = some other := by
        rw [← head?_drop, rest]
        rfl
      obtain ⟨shorter, rfl⟩ := List.getElem?_eq_some_iff.mp here
      obtain ⟨_, rfl⟩ := List.getElem?_eq_some_iff.mp there
      have sorted := pairwise_iff_getElem.mp kept.ordered index (index + 1) short shorter
        (Nat.lt_succ_self _)
      exact takeWhile_cons_of_neg (by simp; omega)
  have split : (world.slabs.pages.take (index + 1) ++ world.slabs.pages.drop (index + 1)).takeWhile
      (fun slab => slab.base ≤ pointer) = _ := takeWhile_append_of_pos before
  rw [take_append_drop, after, append_nil] at split
  rw [split, length_take]
  omega

end

theorem run_validateHead (sound : Sound memory secret slab) (slabs : Slabs) :
    Slabs.validateHead slab slabs = (.ok (), slabs) := by
  obtain ⟨chain, threaded, _, long, members⟩ := sound.threaded
  unfold Slabs.validateHead
  cases chain with
  | nil =>
    have none_ : slab.free = 0 := long.symm
    have ended : slab.head = 0 := threaded
    rw [if_neg (not_not.mpr none_)]
    exact run_check .corrupt ended slabs
  | cons first rest =>
    obtain ⟨_, within, dead, same⟩ := (members first).mp mem_cons_self
    rw [if_pos (by rw [← long]; exact Nat.succ_ne_zero _), threaded.1, same]
    exact Prod.ext (sound.formed.validateFree_address within dead) rfl

/-- What giving a slot back does. -/
structure Given (slabs : Slabs) (index : Nat) (slab : Slab) (slot : Nat) (after : Slabs) :
    Prop where
  effect : ∃ memory, after = { slabs with
    memory := memory
    pages := slabs.pages.set index (slab.given slot)
    liveBytes := slabs.liveBytes - slab.stride
    allocations := slabs.allocations - 1 }
  sound : Sound after.memory after.secret (slab.given slot)
  agree : ∀ byte, ¬(slab.block slot).Holds byte → after.memory byte = slabs.memory byte

section

variable (kept : Kept world)
include kept

theorem deallocate_meets (granted : request layout domain = .ok req)
    (there : world.slabs.pages[index]? = some slab) (inside : slot < slab.count)
    (live : slab.live slot = true) (at_ : pointer = slab.address slot)
    (same : slab.cache = req.cache) :
    (Slabs.deallocate pointer layout domain).Meets world.slabs
      (fun _ after => Given world.slabs index slab slot after) fun _ _ => False := by
  subst at_
  have sound := kept.sound slab (mem_of_getElem? there)
  have formed := sound.formed
  have top := formed.address_le inside
  have large := formed.stride_ge
  have low : slab.base ≤ slab.address slot := Nat.le_add_right ..
  have below := kept.below_eq there low (by omega)
  refine reads_returns granted (.gets ?_)
  rw [below]
  refine check_passes (Nat.succ_ne_zero _) (.expect there ?_)
  refine reads_returns (formed.slot_address inside) (check_passes same ?_)
  refine reads_returns (formed.isLive_eq inside) (check_passes live ?_)
  refine .step (run_validateHead sound world.slabs) ?_
  obtain ⟨_, _⟩ := formed.dvd_stride
  refine .changes (.changes (.of_ok rfl ⟨⟨_, rfl⟩, ?_, ?_⟩))
  · refine sound.given kept.secret inside live (fun byte outside => ?_) ?_
    · exact Memory.clear_of_outside _ (by omega)
    · have zero := Memory.zeroOn_clear world.slabs.memory (slab.address slot)
        ((slab.stride + 7) / 8)
      rw [show 8 * ((slab.stride + 7) / 8) = slab.stride by omega] at zero
      exact zero
  · intro byte outside
    have outside : ¬(slab.address slot ≤ byte ∧ byte < slab.address slot + slab.stride) := outside
    exact (Memory.writeWord_of_outside _ _ (by omega)).trans
      (Memory.clear_of_outside _ (by omega))

/-- The blocks without the one at a pointer. -/
theorem Kept.eraseP_eq {block : Block} (listed : block ∈ world.blocks) :
    ∃ before rest, world.blocks = before ++ block :: rest ∧
      world.blocks.eraseP (fun other => other.pointer = block.pointer) = before ++ rest := by
  obtain ⟨first, before, rest, _, named, whole, erased⟩ :=
    exists_of_eraseP (p := fun other => decide (other.pointer = block.pointer)) listed
      (decide_eq_true rfl)
  have member : first ∈ world.blocks := by
    rw [whole]
    exact mem_append_right _ mem_cons_self
  have same := kept.blocks_inj member listed (of_decide_eq_true named)
  subst same
  exact ⟨before, rest, whole, erased⟩

/-- The live blocks after a slot was given back: all but its own. -/
theorem liveBlock_given (there : world.slabs.pages[index]? = some slab) (inside : slot < slab.count)
    (block : Block) :
    LiveBlock (world.slabs.pages.set index (slab.given slot)) block ↔
      LiveBlock world.slabs.pages block ∧ block ≠ slab.block slot := by
  rw [liveBlock_set there, liveBlock_cases there]
  constructor
  · rintro (⟨slot', within, live, rfl⟩ | ⟨i, other, slot', different, here, within, live, rfl⟩)
    · have live : Function.update slab.live slot false slot' = true := live
      by_cases same : slot' = slot
      · rw [same, update_self] at live
        cases live
      · rw [update_of_ne same] at live
        refine ⟨Or.inl ⟨slot', within, live, rfl⟩, fun equal => same ?_⟩
        exact (kept.formed there).address_inj (congrArg Block.pointer equal)
    · refine ⟨Or.inr ⟨i, other, slot', different, here, within, live, rfl⟩, fun equal => ?_⟩
      have holds := kept.holds_pointer here slot'
      exact different (kept.slots_apart here within there inside holds (equal ▸ holds)).1
  · rintro ⟨⟨slot', within, live, rfl⟩ | others, distinct⟩
    · refine Or.inl ⟨slot', within, ?_, rfl⟩
      show Function.update slab.live slot false slot' = true
      rw [update_of_ne fun same => distinct (congrArg slab.block same)]
      exact live
    · exact Or.inr others

theorem Kept.deallocate_meets (permitted : world.Permitted (.deallocate pointer layout domain)) :
    ∃ index slab slot, world.slabs.pages[index]? = some slab ∧
      slot < slab.count ∧ slab.live slot = true ∧ pointer = slab.address slot ∧
      (Slabs.deallocate pointer layout domain).Meets world.slabs
        (fun _ after => Given world.slabs index slab slot after) fun _ _ => False := by
  obtain ⟨_, granted, block, listed, same, cache⟩ := permitted
  obtain ⟨index, slab, slot, there, inside, live, rfl⟩ := (kept.blocks block).mp listed
  exact ⟨index, slab, slot, there, inside, live, same.symm,
    Heap.deallocate_meets kept granted there inside live same.symm cache⟩

theorem Kept.deallocate (permitted : world.Permitted (.deallocate pointer layout domain)) :
    Kept (world.after (.deallocate pointer layout domain)) := by
  obtain ⟨index, slab, slot, there, inside, live, rfl, meets⟩ := kept.deallocate_meets permitted
  obtain ⟨_, after, run, given⟩ := meets.returned
  simp only [World.after, run]
  obtain ⟨memory, rfl⟩ := given.effect
  have listed : slab.block slot ∈ world.blocks :=
    (kept.blocks _).mpr ⟨index, slab, slot, there, inside, live, rfl⟩
  obtain ⟨before, rest, whole, erased⟩ := kept.eraseP_eq listed
  have erased : world.blocks.eraseP (fun block => block.pointer = slab.address slot) =
    before ++ rest := erased
  have distinct := kept.distinct
  rw [whole] at distinct
  obtain ⟨away, restDistinct⟩ := nodup_cons.mp (nodup_middle.mp distinct)
  have total := kept.counted
  unfold World.Counted at total
  rw [whole, map_append, map_cons, sum_append, sum_cons, length_append, length_cons] at total
  have stride : (slab.block slot).stride = slab.stride := rfl
  rw [erased]
  refine kept.reshape there inside (reshaped_given slab slot) rfl rfl rfl given.agree given.sound
    ?_ restDistinct ⟨?_, ?_⟩ fun _ => Or.inl
  · intro _
    rw [liveBlock_given kept there inside, ← kept.blocks, whole, perm_middle.mem_iff, mem_cons]
    constructor
    · exact fun member => ⟨Or.inr member, fun same => away (same ▸ member)⟩
    · exact fun ⟨member, different⟩ => member.resolve_left different
  · show world.slabs.liveBytes - slab.stride = ((before ++ rest).map Block.stride).sum
    rw [map_append, sum_append]
    omega
  · show world.slabs.allocations - 1 = (before ++ rest).length
    rw [length_append]
    omega

end

/-! ### New slabs -/

/-- What adding a slab does. -/
structure Added (slabs : Slabs) (slab : Slab) (after : Slabs) : Prop where
  pages : after.pages = slabs.pages ++ [slab]
  lists : after.lists = Function.update slabs.lists slab.cache (slabs.pages.length + 1)
  secret : after.secret = slabs.secret
  liveBytes : after.liveBytes = slabs.liveBytes
  allocations : after.allocations = slabs.allocations
  next : slab.next = slabs.lists slab.cache
  sound : Sound after.memory after.secret slab
  unused : ∀ slot, slab.live slot = false
  beyond : ∀ last ∈ slabs.pages.getLast?, last.base + last.span ≤ slab.base
  agree : ∀ byte, byte < slab.base ∨ slab.base + slab.span ≤ byte →
    after.memory byte = slabs.memory byte

/-- A slab that is cut anew is sound if its span was zero. -/
theorem sound_cut {other : Memory} {order : List Nat} (formed : slab.Formed)
    (unused : ∀ slot, slab.live slot = false) (shuffled : order.Perm (List.range slab.count))
    (free : slab.free = slab.count)
    (threaded : Threaded (link memory secret) 0 slab.head (order.map slab.address))
    (zero : other.ZeroOn slab.base slab.span)
    (agree : ∀ byte, (∀ slot ∈ order, byte < slab.address slot ∨ slab.address slot + 8 ≤ byte) →
      memory byte = other byte) : Sound memory secret slab := by
  have members : ∀ slot, slot ∈ order ↔ slot < slab.count := fun slot =>
    shuffled.mem_iff.trans mem_range
  refine ⟨formed, ⟨_, threaded, ?_, ?_, ?_⟩, ?_⟩
  · refine List.Nodup.map (fun first second => formed.address_inj) ?_
    exact shuffled.nodup_iff.mpr nodup_range
  · rw [length_map, shuffled.length_eq, length_range, free]
  · intro address
    constructor
    · intro listed
      obtain ⟨slot, member, rfl⟩ := mem_map.mp listed
      exact ⟨slot, (members slot).mp member, unused slot, rfl⟩
    · rintro ⟨slot, inside, _, rfl⟩
      exact mem_map_of_mem ((members slot).mpr inside)
  · rintro address ⟨slot, inside, _, rfl⟩ byte _ _
    have top := formed.address_le inside
    have bottom : slab.base ≤ slab.address slot := Nat.le_add_right ..
    rw [agree byte]
    · exact zero byte (by omega) (by omega)
    · intro other _
      by_cases same : other = slot
      · subst same
        omega
      · have apart := slab.address_apart same
        omega

theorem add_meets {slabs : Slabs} (secret : slabs.secret < 2 ^ 64) {base : Nat}
    (granted : request layout domain = .ok req) (zero : slabs.memory.ZeroOn base req.span)
    (random : Nat → Nat) :
    (Slabs.add base req random).Meets slabs
      (fun _ after => ∃ slab, Added slabs slab after) fun _ after => after = slabs := by
  obtain ⟨cache, stride, span, align, _, _⟩ := request_eq_ok granted
  refine .gets (check_meets (fun _ => check_meets (fun _ => check_meets (fun placed =>
    check_meets (fun beyond => ?_) fun _ => rfl) fun _ => rfl) fun _ => rfl) fun _ => rfl)
  obtain ⟨proper, aligned, bound⟩ := placed
  rw [align] at aligned
  have formed : ∀ next head free live,
      Slab.Formed ⟨base, req.span, req.stride, req.cache, next, head, free, live⟩ :=
    fun _ _ _ _ => ⟨proper, cache, stride, span, Nat.dvd_of_mod_eq_zero aligned, bound⟩
  have shape := formed 0 0 0 fun _ => false
  have product : req.span / req.stride * req.stride = req.span := shape.count_mul
  have wide : 16 ≤ req.stride := shape.stride_ge
  have positive : 0 < req.span / req.stride := shape.count_pos
  have shuffled := perm_shuffle random 0 (req.span / req.stride - 1)
    (Array.range (req.span / req.stride))
  rw [Array.toList_range] at shuffled
  dsimp only
  generalize (Slabs.shuffle random 0 (req.span / req.stride - 1)
    (Array.range (req.span / req.stride))).toList = order at shuffled
  have inside : ∀ slot ∈ order, slot < req.span / req.stride := fun slot listed =>
    mem_range.mp (shuffled.mem_iff.mp listed)
  have linking := thread_meets order (shuffled.nodup_iff.mpr nodup_range) inside
    (show 8 ≤ req.stride by omega) (show base + req.span / req.stride * req.stride < 2 ^ 64 by
      rw [product]; exact bound) slabs secret
  refine (linking.loosen fun _ _ => False.elim).bind ?_
  rintro _ after ⟨_, rfl, threaded, agree⟩
  cases order with
  | nil =>
    have empty := shuffled.length_eq
    rw [length_range] at empty
    exact absurd empty (Nat.ne_of_lt positive)
  | cons first rest =>
    refine .expect rfl (.of_ok rfl ⟨_, ⟨rfl, rfl, rfl, rfl, rfl, rfl, ?_,
      fun _ => rfl, beyond, ?_⟩⟩)
    · exact sound_cut (formed _ _ _ _) (fun _ => rfl) shuffled rfl threaded zero agree
    · intro byte outside
      refine agree byte fun slot listed => ?_
      have top := shape.address_le (inside slot listed)
      have top : base + slot * req.stride + req.stride ≤ base + req.span := top
      have outside : byte < base ∨ base + req.span ≤ byte := outside
      omega

/-- The latest slabs after one more was added. -/
theorem latest_concat (slab : Slab) (cache : Nat) :
    latest (pages ++ [slab]) cache (pages.length + 1) =
      if slab.cache = cache then pages.length + 1 else latest pages cache pages.length := by
  have old : latest (pages ++ [slab]) cache pages.length = latest pages cache pages.length :=
    latest_congr fun index less => by rw [getElem?_append_left less]
  rw [latest, old, getElem?_concat_length]
  simp

theorem Kept.added (kept : Kept world) {after : Slabs} (added : Added world.slabs slab after) :
    Kept { world with slabs := after } := by
  have below : ∀ other ∈ world.slabs.pages, other.base + other.span ≤ slab.base := by
    intro other listed
    rcases eq_nil_or_concat world.slabs.pages with empty | ⟨_, last, whole⟩
    · rw [empty] at listed
      cases listed
    · have ordered := kept.ordered
      have beyond := added.beyond
      rw [whole, concat_eq_append] at listed ordered beyond
      have high : last.base + last.span ≤ slab.base := beyond last (by simp)
      rcases mem_append.mp listed with early | final
      · have sorted := (pairwise_append.mp ordered).2.2 other early last (by simp)
        omega
      · rw [mem_singleton.mp final]
        exact high
  have split : ∀ {i : Nat} {other : Slab}, after.pages[i]? = some other →
      world.slabs.pages[i]? = some other ∨ (i = world.slabs.pages.length ∧ other = slab) := by
    intro i other here
    rw [added.pages] at here
    exact concat_cases here
  have old : ∀ {i : Nat} {other : Slab}, world.slabs.pages[i]? = some other →
      after.pages[i]? = some other := by
    intro i other here
    rw [added.pages, getElem?_append_left (List.getElem?_eq_some_iff.mp here).1]
    exact here
  have early : ∀ cache bound, bound ≤ world.slabs.pages.length →
      latest after.pages cache bound = latest world.slabs.pages cache bound := by
    intro cache _ _
    refine latest_congr fun index less => ?_
    rw [added.pages, getElem?_append_left (by omega)]
  refine ⟨by rw [added.secret]; exact kept.secret, ?_, ?_, ?_, ?_, ?_, kept.distinct, ?_, ?_⟩
  · intro other listed
    obtain ⟨i, here⟩ := mem_iff_getElem?.mp listed
    rcases split here with there | ⟨_, rfl⟩
    · rw [added.secret]
      have member := mem_of_getElem? there
      refine (kept.sound other member).congr ?_
      rintro _ ⟨slot, inside, _, rfl⟩ byte low high
      have top := (kept.formed there).address_le inside
      have limit := below other member
      exact added.agree byte (by omega)
    · exact added.sound
  · rw [added.pages, pairwise_append]
    refine ⟨kept.ordered, pairwise_singleton .., fun other listed new single => ?_⟩
    rw [mem_singleton.mp single]
    exact below other listed
  · intro cache
    rw [added.lists, added.pages, length_append, length_singleton, latest_concat,
      ← kept.lists cache]
    by_cases same : slab.cache = cache
    · rw [same, update_self, if_pos rfl]
    · rw [update_of_ne (Ne.symm same), if_neg same]
  · intro i other here
    rcases split here with there | ⟨rfl, rfl⟩
    · rw [early _ _ (Nat.le_of_lt (List.getElem?_eq_some_iff.mp there).1)]
      exact kept.nexts i other there
    · rw [early _ _ (Nat.le_refl _), added.next]
      exact kept.lists _
  · intro block
    rw [kept.blocks]
    constructor
    · rintro ⟨i, other, slot, here, inside, live, rfl⟩
      exact ⟨i, other, slot, old here, inside, live, rfl⟩
    · rintro ⟨i, other, slot, here, inside, live, rfl⟩
      rcases split here with there | ⟨_, rfl⟩
      · exact ⟨i, other, slot, there, inside, live, rfl⟩
      · rw [added.unused slot] at live
        cases live
  · exact ⟨added.liveBytes.trans kept.counted.1, added.allocations.trans kept.counted.2⟩
  · intro block listed
    obtain ⟨owner, member, cache, low, high⟩ := kept.issued block listed
    refine ⟨owner, ?_, cache, low, high⟩
    rw [added.pages]
    exact mem_append_left _ member

/-! ### The theorem -/

/-- A client that writes to a live block, or outside all slabs, changes no free slot. -/
theorem Kept.write (kept : Kept world) {value : UInt8}
    (permitted : world.Permitted (.write address value)) :
    Kept (world.after (.write address value)) := by
  refine ⟨kept.secret, ?_, kept.ordered, kept.lists, kept.nexts, kept.blocks, kept.distinct,
    kept.counted, kept.issued⟩
  intro slab listed
  obtain ⟨_, there⟩ := mem_iff_getElem?.mp listed
  refine (kept.sound slab listed).congr ?_
  rintro _ ⟨slot, inside, dead, rfl⟩ byte low high
  have outside : byte ≠ address := by
    rintro rfl
    rcases permitted with ⟨_, member, holds⟩ | away
    · exact kept.not_live there inside dead member ⟨low, high⟩ holds
    · have top := (kept.formed there).address_le inside
      have bottom : slab.base ≤ slab.address slot := Nat.le_add_right ..
      have apart := away slab listed
      omega
  exact update_of_ne outside ..

theorem kept_new (small : secret < 2 ^ 64) : Kept ⟨Slabs.new memory secret, [], []⟩ := by
  refine ⟨small, nofun, .nil, fun _ => rfl, nofun, ?_, .nil, ⟨rfl, rfl⟩, nofun⟩
  intro _
  refine iff_of_false nofun ?_
  rintro ⟨i, _, _, here, _⟩
  cases here

theorem Kept.after (kept : Kept world) (permitted : world.Permitted action) :
    Kept (world.after action) := by
  cases action with
  | write address value => exact kept.write permitted
  | add base layout domain random =>
    obtain ⟨_, granted, zero⟩ := permitted
    simp only [World.after, granted]
    rcases (add_meets kept.secret granted zero random).cases with
      ⟨_, after, run, slab, added⟩ | ⟨_, after, run, rfl⟩
    · rw [run]
      exact kept.added added
    · rw [run]
      exact kept
  | allocate layout domain => exact kept.allocate layout domain
  | deallocate pointer layout domain => exact kept.deallocate permitted

theorem Kept.contract (kept : Kept world) (permitted : world.Permitted action) :
    world.Contract action := by
  cases action with
  | write address value => trivial
  | add base layout domain random =>
    obtain ⟨_, granted, zero⟩ := permitted
    intro _ same
    rw [granted] at same
    cases same
    exact (add_meets kept.secret granted zero random).mono (fun _ _ _ => trivial)
      fun _ _ _ => trivial
  | allocate layout domain => exact kept.allocate_contract layout domain
  | deallocate pointer layout domain =>
    obtain ⟨_, _, _, _, _, _, _, meets⟩ := kept.deallocate_meets permitted
    exact meets.imp fun _ _ _ => trivial

theorem kept_of_reachable (reachable : Reachable heapSystem world) : Kept world := by
  refine reachable.invariant Kept ?_ ?_
  · rintro _ ⟨_, secret, small, rfl⟩
    exact kept_new small
  · rintro _ _ _ _ kept ⟨permitted, rfl⟩
    exact kept.after permitted

/-- In every run, from any secret and any draws, every call keeps its contract, and the counters
say what is live. -/
theorem contract_of_reachable (world : World) (reachable : Reachable heapSystem world) :
    world.Counted ∧ ∀ action, world.Permitted action → world.Contract action := by
  have kept := kept_of_reachable reachable
  exact ⟨kept.counted, fun action => kept.contract⟩

/-- A layout of half a page. -/
def halfPage : Layout := ⟨2048, 8, ⟨3, rfl⟩, by decide⟩

/-- An allocator that was given one page and handed out half of it. -/
def halfUsed : World :=
  ((⟨Slabs.new (fun _ => 0) 12345, [], []⟩ : World).after (.add 8192 halfPage 1 fun _ => 6)).after
    (.allocate halfPage 1)

theorem reachable_halfUsed : Reachable heapSystem halfUsed :=
  .step (.step (.init ⟨_, 12345, by decide, rfl⟩) (.add 8192 halfPage 1 fun _ => 6)
    ⟨⟨⟨4096, 4096, 28, 2048⟩, by decide +kernel, fun _ _ _ => rfl⟩, rfl⟩)
    (.allocate halfPage 1) ⟨trivial, rfl⟩

theorem contract_halfUsed :
    halfUsed.blocks = [⟨10240, 2048, 28⟩] ∧ halfUsed.Counted ∧
      halfUsed.Permitted (.deallocate 10240 halfPage 1) ∧
      ∀ action, halfUsed.Permitted action → halfUsed.Contract action := by
  have blocks : halfUsed.blocks = [⟨10240, 2048, 28⟩] := by decide +kernel
  obtain ⟨counted, contract⟩ := contract_of_reachable halfUsed reachable_halfUsed
  refine ⟨blocks, counted, ⟨⟨4096, 4096, 28, 2048⟩, by decide +kernel, ?_⟩, contract⟩
  rw [blocks]
  exact ⟨_, List.mem_singleton_self _, rfl, rfl⟩

end Mmurtl.Heap

/-
This file proves the isolation of the guarded stacks over their runs: which pages are mapped,
that those beside a stack never are, and which frames a release gives back. A release tells the
caller about a detached table by its address, with zero for none. Nothing is lost by that, since
the frame at address zero is in use before the region is set up and no table is ever put there.
-/

import Mmurtl.Memory.StackCalls
import Mmurtl.Memory.StackPlaces

namespace Mmurtl.Stacks

open Frames User Tables Transition List

/-! ### Runs -/

/-- The region and the stacks that have not been released. -/
structure Kernel where
  region : Region
  live : List KernelStack

inductive Event where
  | allocate (stack : KernelStack)
  | release (stack : KernelStack) (count : Nat)
  | store

variable {event : Event} {state : Kernel}

section Runs

variable (arch : Arch) (root : Nat)

/-- The page at an address is mapped to a frame. -/
def Maps (region : Region) (va frame : Nat) : Prop := Walk arch root region (pathOf va) 0 frame

/-- Stacks are allocated and released, and live ones are written to. -/
inductive Step : Kernel → Event → Kernel → Prop
  | allocate {region after : Region} {live : List KernelStack} {stack : KernelStack}
      (run : allocate arch root region = (.ok stack, after)) :
      Step ⟨region, live⟩ (.allocate stack) ⟨after, stack :: live⟩
  | release {region after : Region} {live : List KernelStack} {stack : KernelStack} {count : Nat}
      (owned : stack ∈ live)
      (run : release arch root stack.virt stack.phys region = (.ok count, after)) :
      Step ⟨region, live⟩ (.release stack count) ⟨after, live.erase stack⟩
  | store {region : Region} {live : List KernelStack} {stack : KernelStack} {i byte : Nat}
      {value : UInt8} (owned : stack ∈ live) (inside : i < pageCount)
      (there : Maps arch root region (stack.virt + i * page) (byte / frameSize)) :
      Step ⟨region, live⟩ .store
        ⟨region.setMemory (Function.update region.memory byte value), live⟩

/-- The region starts without tables, next to a root table that is in use. So is the frame at
address zero: amd64 reserves the first MiB, and on arm64 the heap is the first to take a frame. -/
def kernel : LabelledSystem Kernel Event where
  init state := state.live = [] ∧ ∃ region draw, Books Addressable region.frames ∧
    region.frames.totalFrames ≤ 2 ^ 36 ∧ region.frames.bitmap root = true ∧
    region.frames.bitmap 0 = true ∧
    arch.present ((tables arch).entry region.memory root 448) = false ∧
    init arch root draw region = (.ok (), state.region)
  step := Step arch root

/-! ### Isolation -/

/-- The stacks of a state are isolated, and each of them can be released. -/
structure Isolated (state : Kernel) : Prop where
  once : state.live.Nodup
  pages : ∀ stack ∈ state.live, ∀ i < pageCount,
    ∃ frame, Maps arch root state.region (stack.virt + i * page) frame
  distinct : ∀ first ∈ state.live, ∀ second ∈ state.live, ∀ i < pageCount, ∀ j < pageCount,
    ∀ frame, Maps arch root state.region (first.virt + i * page) frame →
      Maps arch root state.region (second.virt + j * page) frame → first = second ∧ i = j
  below : ∀ stack ∈ state.live,
    mapped arch root (stack.virt - page) state.region = (.ok false, state.region)
  above : ∀ stack ∈ state.live,
    mapped arch root (stack.virt + stack.size) state.region = (.ok false, state.region)
  releases : ∀ stack ∈ state.live, ∃ count after,
    release arch root stack.virt stack.phys state.region = (.ok count, after)

/-- A table through which no page is mapped any more. -/
def Emptied (before after : Region) (frame : Nat) : Prop :=
  ∃ along low, Path arch along ∧ 1 ≤ low ∧ low ≤ 3 ∧ Walk arch root before along low frame ∧
    ∀ other, Path arch other → Format.SameAbove low 4 along other →
      ∀ page, ¬Walk arch root after other 0 page

/-- A release keeps the other stacks where they are, and gives back the frames of its stack and
of the tables it empties. -/
structure Exact (stack : KernelStack) (before after : Kernel) : Prop where
  others : ∀ other ∈ before.live, other ≠ stack → ∀ i < pageCount, ∀ frame,
    Maps arch root after.region (other.virt + i * page) frame ↔
      Maps arch root before.region (other.virt + i * page) frame
  frames : ∀ frame, (before.region.frames.bitmap frame = true ∧
      after.region.frames.bitmap frame = false) ↔
    (∃ i < pageCount, Maps arch root before.region (stack.virt + i * page) frame) ∨
      Emptied arch root before.region after.region frame

end Runs

/-- The stacks allocated in a run. -/
def allocated (moves : List (Move Kernel Event)) : List KernelStack :=
  moves.filterMap fun move => match move.label with
    | .allocate stack => some stack
    | _ => none

/-- No page belongs to both stacks. -/
def KernelStack.Apart (first second : KernelStack) : Prop :=
  ∀ i < pageCount, ∀ j < pageCount, first.virt + i * page ≠ second.virt + j * page

/-- A run with isolated stacks. -/
structure Guarded (arch : Arch) (root : Nat) (start : Kernel) (moves : List (Move Kernel Event)) :
    Prop where
  first : Isolated arch root start
  later : ∀ move ∈ moves, Isolated arch root move.after
  apart : (allocated moves).Pairwise KernelStack.Apart
  exact : ∀ move ∈ moves, ∀ stack count, move.label = .release stack count →
    Exact arch root stack move.before move.after

/-! ### The invariant -/

/-- A live stack: its slot, and its pages. -/
structure Placed (arch : Arch) (root : Nat) (region : Region) (stack : KernelStack) (guard : Nat) :
    Prop where
  slot : Slot guard
  before : guard + stride ≤ region.next
  virt : stack.virt = guard + page
  size : stack.size = stackSize
  phys : ∃ frame, stack.phys = frame * frameSize ∧ Maps arch root region stack.virt frame
  pages : ∀ i < pageCount, ∃ frame, Maps arch root region (stack.virt + i * page) frame

/-- What holds in every reachable state. -/
structure Sound (arch : Arch) (root : Nat) (start : FrameAllocator) (state : Kernel) : Prop where
  tree : Tree arch root start [] state.region
  full : Full arch root state.region
  low : base + stride ≤ state.region.next
  aligned : stride ∣ state.region.next
  anchor : ∃ frame, Maps arch root state.region base frame
  placed : ∀ stack ∈ state.live, ∃ guard, Placed arch root state.region stack guard
  only : ∀ along, Path arch along → ∀ frame, Walk arch root state.region along 0 frame →
    Format.SameAbove 0 4 (pathOf base) along ∨ ∃ stack ∈ state.live, ∃ i < pageCount,
      Format.SameAbove 0 4 (pathOf (stack.virt + i * page)) along
  once : (state.live.map KernelStack.virt).Nodup

section Sound

variable {arch : Arch} {root : Nat} {start : FrameAllocator} {region after : Region}
  {state next : Kernel} {held : List KernelStack} {stack other : KernelStack}
  {guard second i j k frame : Nat}

theorem path_base (arch : Arch) : Path arch (pathOf base) :=
  path_of_region arch (Nat.le_refl _) (by decide)

section

variable (placed : Placed arch root region stack guard)
include placed

theorem Placed.page_eq (i : Nat) : stack.virt + i * page = guard + (i + 1) * page := by
  rw [placed.virt, Nat.succ_mul]
  omega

theorem Placed.path (inside : i < pageCount) : Path arch (pathOf (stack.virt + i * page)) := by
  rw [placed.virt]
  exact placed.slot.path_page arch inside

theorem Placed.path_virt : Path arch (pathOf stack.virt) := by
  have path := placed.path (show 0 < pageCount by decide)
  rwa [Nat.zero_mul] at path

/-- A stack stays where it is while its pages do. -/
theorem Placed.keep (later : region.next ≤ after.next)
    (keeps : ∀ i < pageCount, ∀ frame, Maps arch root region (stack.virt + i * page) frame →
      Maps arch root after (stack.virt + i * page) frame) :
    Placed arch root after stack guard where
  slot := placed.slot
  before := Nat.le_trans placed.before later
  virt := placed.virt
  size := placed.size
  phys := by
    obtain ⟨frame, phys, maps⟩ := placed.phys
    have kept := keeps 0 (by decide) frame
    rw [Nat.zero_mul] at kept
    exact ⟨frame, phys, kept maps⟩
  pages i few := by
    obtain ⟨frame, maps⟩ := placed.pages i few
    exact ⟨frame, keeps i few frame maps⟩

/-- Pages of live stacks with one path are the same. -/
theorem Placed.eq_of_sameAbove (placedToo : Placed arch root after other second)
    (inside : i < pageCount) (insideToo : j < pageCount)
    (same : Format.SameAbove 0 4 (pathOf (stack.virt + i * page))
      (pathOf (other.virt + j * page))) :
    other.virt = stack.virt ∧ j = i := by
  rw [placed.page_eq, placedToo.page_eq] at same
  obtain ⟨rfl, _⟩ := placed.slot.eq_of_sameAbove placedToo.slot
    (succ_lt_of_page inside) (succ_lt_of_page insideToo) same
  exact ⟨by rw [placed.virt, placedToo.virt], by omega⟩

end

/-- The first page of the region is in no slot. -/
theorem Slot.ne_base (slot : Slot guard) (inside : k < 16) :
    ¬Format.SameAbove 0 4 (pathOf base) (pathOf (guard + k * page)) := by
  intro same
  have low := slot.low
  have equal := InRegion.eq_of_sameAbove ⟨Nat.le_refl base, by decide, by decide⟩
    (slot.inRegion inside) same
  have positive : 0 < stride := by decide
  omega

namespace Sound

section

variable (sound : Sound arch root start state)
include sound

theorem live_eq (first : stack ∈ state.live) (second : other ∈ state.live)
    (same : stack.virt = other.virt) : stack = other :=
  inj_on_of_nodup_map sound.once first second same

/-- The pages of a slot that are not of its stack are unmapped. -/
theorem unmapped (slot : Slot guard) (inside : k < 16) (outside : k = 0 ∨ pageCount < k)
    (frame : Nat) : ¬Maps arch root state.region (guard + k * page) frame := by
  intro maps
  rcases sound.only _ (slot.path arch (mul_page_lt inside)) frame maps with same |
    ⟨stack, live, i, few, same⟩
  · exact slot.ne_base inside same
  · obtain ⟨_, placed⟩ := sound.placed stack live
    rw [placed.page_eq] at same
    have equal := (placed.slot.eq_of_sameAbove slot (succ_lt_of_page few) inside same).2
    omega

theorem mapped_eq (slot : Slot guard) (inside : k < 16) (outside : k = 0 ∨ pageCount < k) :
    mapped arch root (guard + k * page) state.region = (.ok false, state.region) := by
  have path := slot.path arch (mul_page_lt inside)
  obtain ⟨found, _, run, rfl, finds⟩ := (walkMapped_meets sound.tree path .here).returned
  have absent : found = false := by
    rw [← Bool.not_eq_true, finds]
    rintro ⟨frame, maps⟩
    exact sound.unmapped slot inside outside frame maps
  rw [absent] at run
  exact run

end

section

variable (grounded : Grounded root start)
include grounded

/-- A live stack can be released. -/
theorem release_released (sound : Sound arch root start state) (live : stack ∈ state.live) :
    (release arch root stack.virt stack.phys).Meets state.region
      (fun _ after => ∃ gone, Released arch root start stack.virt gone state.region after)
      fun _ _ => False := by
  obtain ⟨_, placed⟩ := sound.placed stack live
  obtain ⟨_, phys, first⟩ := placed.phys
  refine (release_meets grounded sound.tree sound.full placed.slot placed.virt placed.pages
    first phys).imp ?_
  rintro _ _ ⟨gone, released, -⟩
  exact ⟨gone, released⟩

/-- The stacks of a sound state are isolated. -/
theorem isolated (sound : Sound arch root start state) : Isolated arch root state where
  once := sound.once.of_map _
  pages stack live := by
    obtain ⟨guard, placed⟩ := sound.placed stack live
    exact placed.pages
  distinct stack live other liveToo i few j fewToo frame maps mapsToo := by
    obtain ⟨guard, placed⟩ := sound.placed stack live
    obtain ⟨_, placedToo⟩ := sound.placed other liveToo
    have same := placed.eq_of_sameAbove placedToo few fewToo fun level after before =>
      maps.injective mapsToo (placed.path few) (placedToo.path fewToo)
        (sound.tree.exclusive grounded) after before
    exact ⟨sound.live_eq live liveToo same.1.symm, same.2.symm⟩
  below stack live := by
    obtain ⟨guard, placed⟩ := sound.placed stack live
    have looked := sound.mapped_eq placed.slot (show 0 < 16 by decide) (.inl rfl)
    rw [placed.virt, Nat.add_sub_cancel]
    rwa [Nat.zero_mul] at looked
  above stack live := by
    obtain ⟨_, placed⟩ := sound.placed stack live
    have looked := sound.mapped_eq placed.slot (show 9 < 16 by decide) (.inr (by decide))
    rwa [placed.virt, placed.size, Nat.add_assoc, show page + stackSize = 9 * page by decide]
  releases stack live := by
    obtain ⟨count, after, run, -⟩ := (release_released grounded sound live).returned
    exact ⟨count, after, run⟩

/-- Allocating a stack keeps a state sound. -/
theorem allocate_sound (sound : Sound arch root start ⟨region, held⟩)
    (run : allocate arch root region = (.ok stack, after)) :
    Sound arch root start ⟨after, stack :: held⟩ ∧ after.next = region.next + stride ∧
      Placed arch root after stack region.next := by
  have tree : Tree arch root start [] region := sound.tree
  obtain ⟨slot, virt, size, first, populated⟩ :=
    allocate_ensures grounded tree sound.full sound.low sound.aligned _ _ run
  have nextAfter : after.next = region.next + stride := populated.next
  have new : Placed arch root after stack region.next := by
    refine ⟨slot, Nat.le_of_eq nextAfter.symm, virt, size, first, fun i few => ?_⟩
    rw [virt]
    exact populated.there _ (mem_map.mpr ⟨i, mem_range.mpr few, rfl⟩)
  have old (other : KernelStack) (known : other ∈ held) :
      ∃ guard, guard + stride ≤ region.next ∧ Placed arch root after other guard := by
    obtain ⟨guard, placed⟩ := sound.placed other known
    have before : guard + stride ≤ region.next := placed.before
    exact ⟨guard, before, placed.keep (Nat.le.intro nextAfter.symm) fun i few frame maps =>
      populated.keeps _ (placed.path few) frame maps⟩
  refine ⟨⟨populated.tree, populated.full, ?_, ?_, ?_, ?_, ?_, ?_⟩, nextAfter, new⟩
  · have low : base + stride ≤ region.next := sound.low
    show base + stride ≤ after.next
    omega
  · rw [nextAfter]
    exact Nat.dvd_add sound.aligned (Nat.dvd_refl _)
  · obtain ⟨frame, maps⟩ := sound.anchor
    exact ⟨frame, populated.keeps _ (path_base arch) frame maps⟩
  · intro other known
    rcases mem_cons.mp known with rfl | known
    · exact ⟨region.next, new⟩
    · obtain ⟨guard, -, placed⟩ := old other known
      exact ⟨guard, placed⟩
  · intro along walk frame reached
    rcases populated.adds along walk frame reached with before | ⟨_, listed, on⟩
    · rcases sound.only along walk frame before with same | ⟨other, known, i, few, same⟩
      · exact .inl same
      · exact .inr ⟨other, mem_cons_of_mem _ known, i, few, same⟩
    · obtain ⟨i, few, rfl⟩ := mem_map.mp listed
      rw [← virt] at on
      exact .inr ⟨stack, mem_cons_self, i, mem_range.mp few, on⟩
  · refine nodup_cons.mpr ⟨fun known => ?_, sound.once⟩
    obtain ⟨other, known, same⟩ := mem_map.mp known
    obtain ⟨_, _, placed⟩ := old other known
    rw [placed.virt, virt] at same
    have positive : 0 < stride := by decide
    omega

/-- Writing to a page keeps a state sound. -/
theorem store_sound {byte : Nat} {value : UInt8} (sound : Sound arch root start ⟨region, held⟩)
    (owned : stack ∈ held) (inside : i < pageCount)
    (there : Maps arch root region (stack.virt + i * page) (byte / frameSize)) :
    Sound arch root start ⟨region.setMemory (Function.update region.memory byte value), held⟩ := by
  have tree : Tree arch root start [] region := sound.tree
  obtain ⟨_, placed⟩ := sound.placed stack owned
  have path := placed.path inside
  have exclusive := tree.exclusive grounded
  obtain ⟨last, above, present, refers⟩ := there.last (by decide)
  have data := above.data_not_table path exclusive present
  rw [refers] at data
  have kept : Tree arch root start []
        (region.setMemory (Function.update region.memory byte value)) ∧
      SameWalks arch root region
        (region.setMemory (Function.update region.memory byte value)) := by
    refine tree.keep (fun frame listed other here => Function.update_of_ne ?_ ..) (tree.holds.store
      fun other free => Function.update_of_ne ?_ ..)
    · rintro rfl
      have here : other / frameSize = frame := here
      rw [here] at data
      exact data listed
    · rintro rfl
      have used := tree.holds.used (mem_append_right []
        ((Format.mem_below_iff (indices_ne_nil arch)).mpr ⟨_, 0, path, by decide, there⟩))
      rw [used] at free
      cases free
  have walks := kept.2
  refine ⟨kept.1, sound.full.congr walks, sound.low, sound.aligned, ?_, ?_, ?_, sound.once⟩
  · obtain ⟨frame, maps⟩ := sound.anchor
    exact ⟨frame, (walks _ (path_base arch) 0 frame).mpr maps⟩
  · intro other known
    obtain ⟨second, placedToo⟩ := sound.placed other known
    exact ⟨second, placedToo.keep (Nat.le_refl _) fun j few frame maps =>
      (walks _ (placedToo.path few) 0 frame).mpr maps⟩
  · intro along walk frame reached
    exact sound.only along walk frame ((walks along walk 0 frame).mp reached)

end

/-! ### What a release gives back -/

section Release

variable {gone : List Nat} (grounded : Grounded root start)
  (sound : Sound arch root start state) (live : stack ∈ state.live)
  (released : Released arch root start stack.virt gone state.region after)

include grounded sound live released

/-- A page is not among the tables that are detached. -/
theorem page_kept {along : Nat → Nat} (walk : Path arch along)
    (maps : Walk arch root state.region along 0 frame) : frame ∉ gone := by
  intro listed
  obtain ⟨_, placed⟩ := sound.placed stack live
  have path := placed.path_virt
  obtain ⟨_, _, -, reached⟩ := released.tables frame listed
  have same := maps.depth_unique reached walk path (sound.tree.exclusive grounded)
  omega

/-- The pages of other stacks stay mapped. -/
theorem others_kept (known : other ∈ state.live) (different : other ≠ stack) (few : i < pageCount)
    (frame : Nat) : Maps arch root after (other.virt + i * page) frame ↔
      Maps arch root state.region (other.virt + i * page) frame := by
  obtain ⟨_, placed⟩ := sound.placed stack live
  obtain ⟨_, placedToo⟩ := sound.placed other known
  refine (released.walks _ (placedToo.path few) 0 frame).trans ⟨fun both => both.1.1, fun maps =>
    ⟨⟨maps, ?_⟩, page_kept grounded sound live released (placedToo.path few) maps⟩⟩
  rintro ⟨-, j, listed, on⟩
  exact different (sound.live_eq known live
    (placed.eq_of_sameAbove placedToo (mem_range.mp listed) few on).1)

theorem anchor_kept : ∃ frame, Maps arch root after base frame := by
  obtain ⟨_, placed⟩ := sound.placed stack live
  obtain ⟨frame, maps⟩ := sound.anchor
  refine ⟨frame, (released.walks _ (path_base arch) 0 frame).mpr ⟨⟨maps, ?_⟩,
    page_kept grounded sound live released (path_base arch) maps⟩⟩
  rintro ⟨-, j, listed, on⟩
  rw [placed.page_eq] at on
  exact placed.slot.ne_base (succ_lt_of_page (mem_range.mp listed)) on.symm

/-- Releasing a stack keeps a state sound. -/
theorem release_sound : Sound arch root start ⟨after, state.live.erase stack⟩ where
  tree := released.tree
  full := released.full
  low := by
    rw [released.next]
    exact sound.low
  aligned := by
    rw [released.next]
    exact sound.aligned
  anchor := anchor_kept grounded sound live released
  placed other known := by
    obtain ⟨different, known⟩ := (sound.once.of_map _).mem_erase_iff.mp known
    obtain ⟨guard, placed⟩ := sound.placed other known
    exact ⟨guard, placed.keep (Nat.le_of_eq released.next.symm) fun i few frame maps =>
      (others_kept grounded sound live released known different few frame).mpr maps⟩
  only along walk frame reached := by
    obtain ⟨⟨before, uncut⟩, -⟩ := (released.walks along walk 0 frame).mp reached
    rcases sound.only along walk frame before with same | ⟨other, known, i, few, same⟩
    · exact .inl same
    · refine .inr ⟨other, (sound.once.of_map _).mem_erase_iff.mpr ⟨?_, known⟩, i, few, same⟩
      rintro rfl
      exact uncut ⟨rfl, i, mem_range.mpr few, same⟩
  once := sound.once.sublist (erase_sublist.map _)

/-- The tables that are detached are those that are emptied. -/
theorem emptied_iff : Emptied arch root state.region after frame ↔ frame ∈ gone := by
  obtain ⟨_, placed⟩ := sound.placed stack live
  have path := placed.path_virt
  constructor
  · rintro ⟨along, low, walk, least, most, reached, empty⟩
    by_contra kept
    have still : Walk arch root after along low frame :=
      (released.walks along walk low frame).mpr ⟨⟨reached, fun wrong => by omega⟩, kept⟩
    rcases Nat.lt_or_eq_of_le most with _ | rfl
    · obtain wrong | ⟨other, onward, under, page, maps⟩ :=
        released.full along walk low frame least (by omega) still
      · cases wrong
      · exact empty other onward under page maps
    · obtain ⟨page, maps⟩ := anchor_kept grounded sound live released
      refine empty _ (path_base arch) (fun level later before => ?_) page maps
      obtain rfl : level = 4 := by omega
      exact (mem_singleton.mp (path_base arch 3)).trans (mem_singleton.mp (walk 3)).symm
  · intro listed
    obtain ⟨low, least, _, reached⟩ := released.tables frame listed
    refine ⟨_, low, path, least, by omega, reached, fun other onward under page maps => ?_⟩
    obtain ⟨table, passed⟩ := maps.passes (Nat.zero_le low) (by omega)
    have back : Walk arch root after (pathOf stack.virt) low table :=
      passed.path_congr under.symm
    obtain ⟨⟨earlier, -⟩, kept⟩ := (released.walks _ path low table).mp back
    rw [reached.unique earlier] at kept
    exact kept listed

/-- The frames that leave the region are those of the stack and the tables that are detached. -/
theorem left_iff : (frame ∈ (tables arch).below state.region.memory 4 root ∧
      frame ∉ (tables arch).below after.memory 4 root) ↔
    (∃ i < pageCount, Maps arch root state.region (stack.virt + i * page) frame) ∨
      frame ∈ gone := by
  obtain ⟨_, placed⟩ := sound.placed stack live
  have exclusive := sound.tree.exclusive grounded
  rw [mem_below arch root state.region, mem_below arch root after]
  constructor
  · rintro ⟨⟨along, low, walk, lower, reached⟩, left⟩
    by_cases listed : frame ∈ gone
    · exact .inr listed
    · by_cases cut : low = 0 ∧ ∃ i ∈ List.range pageCount,
          Format.SameAbove 0 4 (pathOf (stack.virt + i * page)) along
      · obtain ⟨rfl, i, few, on⟩ := cut
        exact .inl ⟨i, mem_range.mp few, reached.path_congr on.symm⟩
      · exact absurd ⟨along, low, walk, lower,
          (released.walks along walk low frame).mpr ⟨⟨reached, cut⟩, listed⟩⟩ left
  · rintro (⟨i, few, maps⟩ | listed)
    · have path := placed.path few
      refine ⟨⟨_, 0, path, by decide, maps⟩, ?_⟩
      rintro ⟨along, low, walk, -, reached⟩
      obtain ⟨⟨earlier, uncut⟩, -⟩ := (released.walks along walk low frame).mp reached
      obtain rfl := maps.depth_unique earlier path walk exclusive
      exact uncut ⟨rfl, i, mem_range.mpr few, fun level later before =>
        maps.injective earlier path walk exclusive later before⟩
    · obtain ⟨low, -, _, reached⟩ := released.tables frame listed
      refine ⟨⟨_, low, placed.path_virt, by omega, reached⟩, ?_⟩
      rintro ⟨along, low, walk, -, reached⟩
      exact ((released.walks along walk low frame).mp reached).2 listed

omit grounded live in
/-- A frame is given back if it leaves the region. -/
theorem freed_iff_left : (state.region.frames.bitmap frame = true ∧
      after.frames.bitmap frame = false) ↔ (frame ∈ (tables arch).below state.region.memory 4 root ∧
      frame ∉ (tables arch).below after.memory 4 root) := by
  have free : after.frames.bitmap frame = false ↔ ¬start.bitmap frame = true ∧
      frame ∉ (tables arch).below after.memory 4 root := by
    rw [← Bool.not_eq_true, released.tree.used_iff, not_or, not_or, and_iff_right not_mem_nil]
  rw [sound.tree.used_iff, free]
  constructor
  · rintro ⟨old | wrong | inside, unused, left⟩
    · exact absurd old unused
    · cases wrong
    · exact ⟨inside, left⟩
  · rintro ⟨inside, left⟩
    refine ⟨.inr (.inr inside), ?_, left⟩
    rw [sound.tree.holds.free frame (mem_append_right [] inside)]
    exact Bool.false_ne_true

/-- A release is exact. -/
theorem release_exact : Exact arch root stack state ⟨after, state.live.erase stack⟩ where
  others other known different i few frame :=
    others_kept grounded sound live released known different few frame
  frames frame := by
    rw [freed_iff_left sound released, left_iff grounded sound live released,
      emptied_iff grounded sound live released]

end Release

end Sound

/-- A region without tables. -/
theorem Tree.of_absent (books : Books Addressable region.frames)
    (absent : arch.present ((tables arch).entry region.memory root 448) = false) :
    Tree arch root region.frames [] region ∧
      ∀ along, Path arch along → ∀ low found, low < 4 → ¬Walk arch root region along low found := by
  have empty : (tables arch).below region.memory 4 root = [] :=
    Format.below_eq_nil_iff.mpr fun index used => by
      rw [mem_singleton.mp used]
      exact absent
  have none_ (along : Nat → Nat) (walk : Path arch along) (low found : Nat) (lower : low < 4) :
      ¬Walk arch root region along low found := fun reached =>
    absurd (reached.of_empty walk empty).1 (by omega)
  refine ⟨⟨?_, fun along walk level table shallow reached present => ?_⟩, none_⟩
  · rw [empty]
    exact .refl books
  · obtain ⟨same, rfl⟩ := reached.of_empty walk empty
    have index : along (level + 2) = 448 := by
      rw [same]
      exact mem_singleton.mp (walk 3)
    rw [index, absent] at present
    cases present

/-- Mapping the first page of a region without tables. -/
theorem anchor_ensures (next : Nat) (grounded : Grounded root region.frames)
    (books : Books Addressable region.frames)
    (absent : arch.present ((tables arch).entry region.memory root 448) = false) :
    (do let pa ← takeFrame; map arch root base pa : Call Unit).Ensures { region with next := next }
      fun _ after => after.next = next ∧ Tree arch root region.frames [] after ∧
        Full arch root after ∧ (∃ frame, Maps arch root after base frame) ∧
        ∀ along, Path arch along → ∀ frame, Walk arch root after along 0 frame →
          Format.SameAbove 0 4 (pathOf base) along := by
  obtain ⟨tree, none_⟩ := Tree.of_absent books absent
  have treeNext : Tree arch root region.frames [] { region with next := next } :=
    ⟨tree.holds, tree.ok⟩
  refine (takeFrame_ensures grounded treeNext).bind ?_
  rintro _ _ ⟨idx, rfl, small, treeTaken, same, nextTaken, -⟩
  have full : Full arch root { region with next := next } :=
    fun along walk low table least most reached =>
      absurd reached (none_ along walk low table (by omega))
  refine (map_populates grounded treeTaken small full same nextTaken (path_base arch)).mono ?_
  rintro _ _ ⟨populated, maps⟩
  refine ⟨populated.next, populated.tree, populated.full, ⟨idx, maps⟩, ?_⟩
  intro along walk frame reached
  rcases populated.adds along walk frame reached with before | ⟨_, listed, on⟩
  · exact absurd before (none_ along walk 0 frame (by decide))
  · rw [mem_singleton.mp listed] at on
    exact on

/-- The region is sound once it is set up. -/
theorem Sound.of_init {draw : Nat} (grounded : Grounded root region.frames)
    (books : Books Addressable region.frames)
    (absent : arch.present ((tables arch).entry region.memory root 448) = false)
    (run : init arch root draw region = (.ok (), after)) :
    Sound arch root region.frames ⟨after, []⟩ := by
  have anchor := anchor_ensures (firstSlot draw) grounded books absent
  obtain ⟨next, tree, full, maps, only⟩ := Program.Ensures.changes anchor _ _ run
  refine ⟨tree, full, ?_, ?_, maps, ?_, fun along walk frame reached =>
    .inl (only along walk frame reached), nodup_nil⟩
  · rw [next, firstSlot, Nat.succ_mul]
    omega
  · rw [next, firstSlot]
    exact Nat.dvd_add (by decide) (Nat.dvd_mul_left ..)
  · intro _ wrong
    cases wrong

end Sound

/-! ### Whole runs -/

section Whole

variable {arch : Arch} {root : Nat} {start last : Kernel} {moves : List (Move Kernel Event)}

/-- A state is sound for some frames that were in use when the region was set up. -/
def Settled (arch : Arch) (root : Nat) (state : Kernel) : Prop :=
  ∃ frames, Grounded root frames ∧ Sound arch root frames state

theorem Settled.of_init (initial : (kernel arch root).init start) : Settled arch root start := by
  obtain ⟨_, _⟩ := start
  obtain ⟨rfl, before, _, books, small, used, zero, absent, run⟩ := initial
  exact ⟨before.frames, ⟨used, zero, small⟩, .of_init ⟨used, zero, small⟩ books absent run⟩

/-- Every move keeps a state sound, and a release is exact. -/
theorem Settled.step {next : Kernel} (settled : Settled arch root state)
    (step : Step arch root state event next) : Settled arch root next ∧
      ∀ stack count, event = .release stack count → Exact arch root stack state next := by
  obtain ⟨frames, grounded, sound⟩ := settled
  cases step with
  | allocate run =>
    refine ⟨⟨frames, grounded, (sound.allocate_sound grounded run).1⟩, fun _ _ wrong => ?_⟩
    cases wrong
  | release owned run =>
    obtain ⟨_, released⟩ := (Sound.release_released grounded sound owned).ok run
    refine ⟨⟨frames, grounded, Sound.release_sound grounded sound owned released⟩, ?_⟩
    intro _ _ same
    cases same
    exact Sound.release_exact grounded sound owned released
  | store owned inside there =>
    refine ⟨⟨frames, grounded, sound.store_sound grounded owned inside there⟩, fun _ _ wrong => ?_⟩
    cases wrong

theorem Settled.isolated (settled : Settled arch root state) : Isolated arch root state := by
  obtain ⟨_, grounded, sound⟩ := settled
  exact sound.isolated grounded

/-- The only stack can be released. -/
theorem Settled.release_only {region : Region} {stack : KernelStack}
    (settled : Settled arch root ⟨region, [stack]⟩) :
    ∃ count after, Step arch root ⟨region, [stack]⟩ (.release stack count) ⟨after, []⟩ := by
  have live : stack ∈ [stack] := mem_singleton_self _
  obtain ⟨count, after, run⟩ := settled.isolated.releases stack live
  have step : Step arch root ⟨region, [stack]⟩ (.release stack count)
      ⟨after, [stack].erase stack⟩ := .release live run
  rw [erase_cons_head] at step
  exact ⟨count, after, step⟩

theorem settled_of_reachable (reachable : Reachable (kernel arch root) state) :
    Settled arch root state :=
  reachable.invariant _ (fun _ => .of_init) fun _ _ _ _ settled step => (settled.step step).1

/-- The stacks of a run fill the slots from the first one on. -/
theorem allocated_slots (run : Run (kernel arch root) start moves last) :
    (start.region.next ≤ limit → last.region.next ≤ limit) ∧
      last.region.next = start.region.next + (allocated moves).length * stride ∧
      (allocated moves).map KernelStack.virt = (List.range (allocated moves).length).map fun i =>
        start.region.next + i * stride + page := by
  induction run with
  | nil => exact ⟨id, (Nat.add_zero _).symm, rfl⟩
  | @snoc last next moves event run step ih =>
    obtain ⟨high, later, virts⟩ := ih
    have grows : allocated (moves ++ [⟨last, event, next⟩]) =
        allocated moves ++ allocated [⟨last, event, next⟩] := filterMap_append
    rw [grows]
    cases step with
    | @allocate region after live stack call =>
      obtain ⟨fits, virt, takes⟩ := allocateSized_ensures _ _ _ call
      rw [show allocated [_] = [stack] from rfl, length_append, length_singleton,
        range_succ, map_append, map_append, virts, Nat.succ_mul, ← Nat.add_assoc, ← later]
      refine ⟨fun _ => takes.trans_le fits, takes, ?_⟩
      rw [map_singleton, map_singleton, virt, ← later]
    | @release region after live stack count owned call =>
      have same : after.next = region.next := by
        rw [← release_stays arch root stack.virt stack.phys region, call]
      rw [show allocated [_] = [] from rfl, append_nil]
      exact ⟨fun room => same.trans_le (high room), same.trans later, virts⟩
    | store =>
      rw [show allocated [_] = [] from rfl, append_nil]
      exact ⟨high, later, virts⟩

/-- A slot is only used once. -/
theorem allocated_apart (run : Run (kernel arch root) start moves last) :
    (allocated moves).Pairwise KernelStack.Apart := by
  obtain ⟨-, -, virts⟩ := allocated_slots run
  have apart : ((allocated moves).map KernelStack.virt).Pairwise fun first second =>
      ∀ i < pageCount, ∀ j < pageCount, first + i * page ≠ second + j * page := by
    rw [virts]
    refine pairwise_map.mpr (pairwise_lt_range.imp ?_)
    intro slot later before i few j _
    have inside := mul_page_lt (succ_lt_of_page few)
    have slots := Nat.mul_le_mul_right stride (Nat.succ_le_of_lt before)
    rw [Nat.succ_mul] at inside slots
    omega
  exact (pairwise_map.mp apart).imp id

/-- The stacks of a run are isolated, and every release gives back what it should. -/
theorem guarded_of_run (initial : (kernel arch root).init start)
    (run : Run (kernel arch root) start moves last) : Guarded arch root start moves := by
  have reachable : Reachable (kernel arch root) start := .init initial
  have steps (move : Move Kernel Event) (listed : move ∈ moves) :
      Settled arch root move.after ∧ ∀ stack count, move.label = .release stack count →
        Exact arch root stack move.before move.after := by
    obtain ⟨before, step⟩ := run.move_of_mem reachable listed
    exact (settled_of_reachable before).step step
  exact ⟨(settled_of_reachable reachable).isolated,
    fun move listed => (steps move listed).1.isolated, allocated_apart run,
    fun move listed => (steps move listed).2⟩

end Whole

/-! ### A small region -/

/-- Twenty-four clean frames. The frame at address zero and the root table in frame 14 are in
use. -/
def smallRegion : Region where
  frames := {
    memory := fun _ => 0
    bitmap := fun idx => decide (24 ≤ idx) || decide (idx = 0) || decide (idx = 14)
    zeroed := fun idx => decide (idx < 24) && decide (idx ≠ 0) && decide (idx ≠ 14)
    totalFrames := 24
    freeFrames := 22
    lastSearch := 15
    header := 0 }
  next := 0

/-- The region set up with a first slot below a table of its own. -/
def smallFirst (arch : Arch) : Region := (init arch 14 31 smallRegion).2

/-- The stack in this slot, with its first page in frame 19. -/
def smallStack : KernelStack := ⟨base + 32 * stride + page, 19 * frameSize, stackSize⟩

def smallSecond (arch : Arch) : Region := (allocate arch 14 (smallFirst arch)).2

def smallStart (arch : Arch) : Kernel := ⟨smallFirst arch, []⟩

def smallHeld (arch : Arch) : Kernel := ⟨smallSecond arch, [smallStack]⟩

def smallAllocation (arch : Arch) : Move Kernel Event :=
  ⟨smallStart arch, .allocate smallStack, smallHeld arch⟩

theorem init_smallStart {arch : Arch} (returns : (init arch 14 31 smallRegion).1 = .ok ())
    (absent : arch.present ((tables arch).entry smallRegion.memory 14 448) = false) :
    (kernel arch 14).init (smallStart arch) := by
  have call : init arch 14 31 smallRegion = (.ok (), smallFirst arch) := by
    rw [smallFirst]
    exact Program.run_of_fst returns
  refine ⟨rfl, smallRegion, 31, ⟨fun idx free => ?_, by decide, fun idx clean => ?_⟩, by decide,
    by decide, by decide, absent, call⟩
  · have few : idx < 24 := by
      have both : (¬24 ≤ idx ∧ idx ≠ 0) ∧ idx ≠ 14 := by simpa [smallRegion] using free
      omega
    exact ⟨few, by unfold Addressable; omega⟩
  · have both : (idx < 24 ∧ idx ≠ 0) ∧ idx ≠ 14 := by simpa [smallRegion] using clean
    refine ⟨?_, fun _ _ _ => rfl⟩
    simpa [smallRegion] using both

theorem call_smallStack {arch : Arch}
    (returns : (allocate arch 14 (smallFirst arch)).1 = .ok smallStack) :
    allocate arch 14 (smallFirst arch) = (.ok smallStack, smallSecond arch) := by
  have spelled : smallSecond = fun arch => (allocate arch 14 (smallFirst arch)).2 := rfl
  rw [spelled]
  exact Program.run_of_fst returns

theorem run_smallAllocation {arch : Arch}
    (returns : (allocate arch 14 (smallFirst arch)).1 = .ok smallStack) :
    Run (kernel arch 14) (smallStart arch) [smallAllocation arch] (smallHeld arch) := by
  have step : Step arch 14 (smallStart arch) (.allocate smallStack) (smallHeld arch) :=
    .allocate (call_smallStack returns)
  exact .snoc (.nil _) step

/-- The small region is set up on amd64, and on arm64 a stack is allocated and released again. -/
theorem guarded_smallStack : Guarded amd64 14 (smallStart amd64) [] ∧ ∃ count after,
    Guarded arm64 14 (smallStart arm64)
      [smallAllocation arm64, ⟨smallHeld arm64, .release smallStack count, ⟨after, []⟩⟩] := by
  have setUp := @init_smallStart amd64 (by decide +kernel) (by decide +kernel)
  have initial := @init_smallStart arm64 (by decide +kernel) (by decide +kernel)
  have first := @run_smallAllocation arm64 (by decide +kernel)
  obtain ⟨count, after, step⟩ :=
    (settled_of_reachable ((Reachable.init initial).run first)).release_only
  exact ⟨guarded_of_run setUp (.nil _), count, after, guarded_of_run initial (.snoc first step)⟩

end Mmurtl.Stacks

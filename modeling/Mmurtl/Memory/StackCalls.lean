/-
This file proves what allocating and releasing a stack do to the pages of the region. The pages
of a stack lie in one slot of the region, and a slot lies below one table of pages, so that a
release can only empty the tables on the way to its first page.
-/

import Mmurtl.Memory.StackTables

namespace Mmurtl.Stacks

open Frames User Tables List

variable {offset va : Nat} {offsets : List Nat}

/-! ### Slots -/

/-- The pages of a stack. -/
def pageCount : Nat := stackSize / page

/-- The page below a stack, where its slot starts. -/
structure Slot (guard : Nat) : Prop where
  low : base + stride ≤ guard
  high : guard + stride ≤ limit
  aligned : stride ∣ guard

/-- A page of the region. -/
structure InRegion (va : Nat) : Prop where
  low : base ≤ va
  high : va < limit
  aligned : page ∣ va

variable {guard i : Nat}

theorem succ_lt_of_page (few : i < pageCount) : i + 1 < 16 :=
  Nat.lt_of_lt_of_le (Nat.succ_lt_succ few) (by decide)

theorem mul_page_lt (few : i < 16) : i * page < stride := by
  unfold page stride
  omega

theorem tableIndex_slot (aligned : stride ∣ guard) (inside : offset < stride) (level : Nat) :
    tableIndex (guard + offset) (level + 1) = tableIndex guard (level + 1) := by
  obtain ⟨slot, rfl⟩ := aligned
  unfold tableIndex
  have split : 2 ^ (12 + 9 * (level + 1)) = stride * 2 ^ (5 + 9 * level) := by
    rw [show 12 + 9 * (level + 1) = 16 + (5 + 9 * level) by omega, Nat.pow_add]
    rfl
  have whole : (stride * slot + offset) / stride = slot := by
    rw [Nat.mul_add_div (by decide), Nat.div_eq_of_lt inside, Nat.add_zero]
  rw [Nat.shiftRight_eq_div_pow, Nat.shiftRight_eq_div_pow, split, ← Nat.div_div_eq_div_mul,
    ← Nat.div_div_eq_div_mul, whole, Nat.mul_div_cancel_left _ (by decide)]

/-- All addresses of a slot are on one way down to the table of their pages. -/
theorem sameAbove_slot {first second : Nat} (aligned : stride ∣ guard) (inside : first < stride)
    (insideToo : second < stride) :
    Format.SameAbove 1 4 (pathOf (guard + first)) (pathOf (guard + second)) := by
  intro level _ _
  obtain ⟨depth, rfl⟩ : ∃ depth, level = depth + 2 := ⟨level - 2, by omega⟩
  exact (tableIndex_slot aligned insideToo depth).trans (tableIndex_slot aligned inside depth).symm

/-- Two pages of the region with one path are the same. -/
theorem InRegion.eq_of_sameAbove {vb : Nat} (inside : InRegion va) (insideToo : InRegion vb)
    (same : Format.SameAbove 0 4 (pathOf va) (pathOf vb)) : vb = va := by
  have index (level : Nat) (few : level < 4) : tableIndex vb level = tableIndex va level :=
    same (level + 1) (Nat.succ_pos _) few
  have first := index 0 (by decide)
  have second := index 1 (by decide)
  have third := index 2 (by decide)
  have mask (x : Nat) : x &&& 0x1ff = x % 512 := Nat.and_two_pow_sub_one_eq_mod x 9
  simp only [tableIndex, Nat.shiftRight_eq_div_pow, mask, Nat.reduceMul, Nat.reduceAdd,
    Nat.reducePow] at first second third
  obtain ⟨_, _, _⟩ := inside
  obtain ⟨_, _, _⟩ := insideToo
  unfold limit base page at *
  omega

/-- The addresses of a slot are in the region. -/
theorem Slot.path (arch : Arch) (slot : Slot guard) (inside : offset < stride) :
    Path arch (pathOf (guard + offset)) := by
  have low := slot.low
  have high := slot.high
  exact path_of_region arch (by omega) (by omega)

theorem Slot.path_page (arch : Arch) (slot : Slot guard) (few : i < pageCount) :
    Path arch (pathOf (guard + page + i * page)) := by
  rw [Nat.add_assoc, Nat.add_comm page, ← Nat.succ_mul]
  exact slot.path arch (mul_page_lt (succ_lt_of_page few))

theorem Slot.inRegion (slot : Slot guard) (inside : i < 16) : InRegion (guard + i * page) := by
  have low := slot.low
  have high := slot.high
  have offset := mul_page_lt inside
  exact ⟨by omega, by omega,
    Nat.dvd_add (Nat.dvd_trans (by decide) slot.aligned) (Nat.dvd_mul_left page i)⟩

/-- Pages of slots with one path are the same. -/
theorem Slot.eq_of_sameAbove {other j : Nat} (slot : Slot guard) (slotToo : Slot other)
    (inside : i < 16) (insideToo : j < 16)
    (same : Format.SameAbove 0 4 (pathOf (guard + i * page)) (pathOf (other + j * page))) :
    other = guard ∧ j = i := by
  have equal := (slot.inRegion inside).eq_of_sameAbove (slotToo.inRegion insideToo) same
  obtain ⟨_, rfl⟩ := slot.aligned
  obtain ⟨_, rfl⟩ := slotToo.aligned
  clear slot slotToo same
  unfold page stride at *
  omega

/-! ### Mapping pages -/

section Calls

variable {arch : Arch} {root : Nat} {start : FrameAllocator} {loose : List Nat}
  {region after : Region} {virt : Nat}

theorem FullBut.congr {spared : Nat → (Nat → Nat) → Prop} (full : FullBut arch root region spared)
    (same : SameWalks arch root region after) : FullBut arch root after spared := by
  intro along walk low table least most reached
  rcases full along walk low table least most ((same along walk low table).mp reached) with
    yes | ⟨other, onward, under, frame, page⟩
  · exact .inl yes
  · exact .inr ⟨other, onward, under, frame, (same other onward 0 frame).mpr page⟩

/-- Some pages have been mapped. -/
structure Populated (arch : Arch) (root : Nat) (start : FrameAllocator) (loose pages : List Nat)
    (before after : Region) : Prop where
  tree : Tree arch root start loose after
  next : after.next = before.next
  full : Full arch root after
  keeps : ∀ along, Path arch along → ∀ found, Walk arch root before along 0 found →
    Walk arch root after along 0 found
  adds : ∀ along, Path arch along → ∀ found, Walk arch root after along 0 found →
    Walk arch root before along 0 found ∨ ∃ va ∈ pages, Format.SameAbove 0 4 (pathOf va) along
  there : ∀ va ∈ pages, ∃ frame, Walk arch root after (pathOf va) 0 frame

/-- Mapping a page to a frame that has just been taken. -/
theorem map_populates {idx : Nat} {taken : Region} (grounded : Grounded root start)
    (tree : Tree arch root start (idx :: loose) taken) (small : idx < 2 ^ 36)
    (full : Full arch root region) (same : SameWalks arch root region taken)
    (next : taken.next = region.next) (path : Path arch (pathOf va)) :
    (map arch root va (idx * frameSize)).Ensures taken fun _ after =>
      Populated arch root start loose [va] region after ∧
        Walk arch root after (pathOf va) 0 idx := by
  refine (map_ensures grounded tree small (full.congr same) path).mono ?_
  rintro _ after ⟨treeAfter, nextAfter, fullAfter, pages⟩
  have mapped : Walk arch root after (pathOf va) 0 idx :=
    (pages _ path idx).mpr (.inr ⟨rfl, fun _ _ _ => rfl⟩)
  refine ⟨⟨treeAfter, nextAfter.trans next, fullAfter, ?_, ?_, ?_⟩, mapped⟩
  · intro along walk found before
    exact (pages along walk found).mpr (.inl ((same along walk 0 found).mpr before))
  · intro along walk found reached
    rcases (pages along walk found).mp reached with before | ⟨-, on⟩
    · exact .inl ((same along walk 0 found).mp before)
    · exact .inr ⟨va, mem_singleton_self va, on⟩
  · intro _ listed
    rw [mem_singleton.mp listed]
    exact ⟨idx, mapped⟩

theorem Populated.trans {first second : List Nat} {middle : Region}
    (before : Populated arch root start loose first region middle)
    (later : Populated arch root start loose second middle after)
    (paths : ∀ va ∈ first, Path arch (pathOf va)) :
    Populated arch root start loose (first ++ second) region after where
  tree := later.tree
  next := later.next.trans before.next
  full := later.full
  keeps along walk found reached :=
    later.keeps along walk found (before.keeps along walk found reached)
  adds along walk found reached := by
    rcases later.adds along walk found reached with old | ⟨va, listed, on⟩
    · rcases before.adds along walk found old with older | ⟨va, listed, on⟩
      · exact .inl older
      · exact .inr ⟨va, mem_append_left _ listed, on⟩
    · exact .inr ⟨va, mem_append_right _ listed, on⟩
  there va listed := by
    rcases mem_append.mp listed with early | late
    · obtain ⟨frame, mapped⟩ := before.there va early
      exact ⟨frame, later.keeps _ (paths va early) frame mapped⟩
    · exact later.there va late

section

variable (grounded : Grounded root start) (tree : Tree arch root start loose region)
include grounded tree

/-- Mapping pages returns the address of the frame of the first one. -/
theorem mapPages_ensures (full : Full arch root region)
    (paths : ∀ i ∈ offsets, Path arch (pathOf (virt + i * page))) (first : Option Nat) :
    (mapPages arch root virt offsets first).Ensures region fun found after =>
      Populated arch root start loose (offsets.map fun i => virt + i * page) region after ∧
        (∀ pa, first = some pa → found = some pa) ∧
        ∀ i, first = none → offsets.head? = some i → ∃ frame, found = some (frame * frameSize) ∧
          Walk arch root after (pathOf (virt + i * page)) 0 frame := by
  induction offsets generalizing region first with
  | nil =>
    refine .pure ⟨⟨tree, rfl, full, fun _ _ _ => id, fun _ _ _ => .inl, ?_⟩, fun _ => id, ?_⟩
    · intro va listed
      cases listed
    · intro i _ wrong
      cases wrong
  | cons i rest ih =>
    have path := paths i mem_cons_self
    refine (takeFrame_ensures grounded tree).bind ?_
    rintro _ _ ⟨frame, rfl, small, treeTaken, sameTaken, next, -⟩
    refine (map_populates grounded treeTaken small full sameTaken next path).bind ?_
    rintro _ _ ⟨one, mapped⟩
    refine (ih one.tree one.full (forall_mem_cons.mp paths).2 _).mono ?_
    rintro _ _ ⟨more, same, -⟩
    have found_ := same _ rfl
    refine ⟨one.trans more ?_, ?_, ?_⟩
    · intro _ listed
      rw [mem_singleton.mp listed]
      exact path
    · rintro _ rfl
      exact found_
    · rintro j rfl here
      cases here
      exact ⟨frame, found_, more.keeps _ path frame mapped⟩

/-- A stack takes the next slot. -/
theorem allocate_ensures (full : Full arch root region) (low : base + stride ≤ region.next)
    (aligned : stride ∣ region.next) :
    (allocate arch root).Ensures region fun stack after =>
      Slot region.next ∧ stack.virt = region.next + page ∧ stack.size = stackSize ∧
        (∃ frame, stack.phys = frame * frameSize ∧
          Walk arch root after (pathOf stack.virt) 0 frame) ∧
        Populated arch root start loose
          ((List.range pageCount).map fun i => region.next + page + i * page)
          { region with next := region.next + stride } after := by
  refine .gets (.require fun room => .changes ?_)
  have slot : Slot region.next := ⟨low, room, aligned⟩
  have treeNext : Tree arch root start loose { region with next := region.next + stride } :=
    ⟨tree.holds, tree.ok⟩
  have below : Path arch (pathOf region.next) := slot.path arch (show 0 < stride by decide)
  have above : Path arch (pathOf (region.next + page + stackSize)) := by
    rw [Nat.add_assoc]
    exact slot.path arch (show page + stackSize < stride by decide)
  refine Program.Ensures.bind (fun _ _ run => (walkMapped_meets treeNext below .here).ok run) ?_
  rintro _ _ ⟨rfl, -⟩
  refine .require fun _ => ?_
  refine Program.Ensures.bind (fun _ _ run => (walkMapped_meets treeNext above .here).ok run) ?_
  rintro _ _ ⟨rfl, -⟩
  refine .require fun _ => ?_
  refine (mapPages_ensures grounded treeNext full
    (fun i listed => slot.path_page arch (mem_range.mp listed)) none).bind ?_
  rintro _ _ ⟨populated, -, first⟩
  obtain ⟨frame, rfl, mapped⟩ := first 0 rfl rfl
  exact .expect fun pa same => .pure ⟨slot, rfl, rfl,
    ⟨frame, (Option.some.inj same).symm, by rwa [Nat.zero_mul] at mapped⟩, populated⟩

/-! ### Releasing a stack -/

/-- Unmapping pages makes their frames loose. -/
theorem unmapPages_meets (paths : ∀ i ∈ offsets, Path arch (pathOf (virt + i * page)))
    (apart : offsets.Pairwise fun i j =>
      ¬Format.SameAbove 0 4 (pathOf (virt + i * page)) (pathOf (virt + j * page)))
    (there : ∀ i ∈ offsets, ∃ frame, Walk arch root region (pathOf (virt + i * page)) 0 frame) :
    (unmapPages arch root virt offsets).Meets region
      (fun pages after => ∃ frames, pages = frames.map (· * frameSize) ∧
        List.Forall₂ (fun i frame => Walk arch root region (pathOf (virt + i * page)) 0 frame)
          offsets frames ∧ after.next = region.next ∧ Tree arch root start (frames ++ loose) after ∧
        ∀ along, Path arch along → ∀ low found, Walk arch root after along low found ↔
          Walk arch root region along low found ∧ ¬(low = 0 ∧ ∃ i ∈ offsets,
            Format.SameAbove 0 4 (pathOf (virt + i * page)) along)) fun _ _ => False := by
  induction offsets generalizing region loose with
  | nil => exact .pure ⟨[], rfl, .nil, rfl, tree, by simp⟩
  | cons i rest ih =>
    obtain ⟨first, others⟩ := pairwise_cons.mp apart
    have path := paths i mem_cons_self
    have pathRest (j : Nat) (listed : j ∈ rest) := paths j (mem_cons_of_mem _ listed)
    obtain ⟨idx, mapped⟩ := there i mem_cons_self
    refine (unmap_meets grounded tree path mapped).bind ?_
    rintro _ middle ⟨rfl, nextMiddle, treeMiddle, walksMiddle⟩
    have kept (j : Nat) (listed : j ∈ rest) (frame : Nat) :
        Walk arch root middle (pathOf (virt + j * page)) 0 frame ↔
          Walk arch root region (pathOf (virt + j * page)) 0 frame := by
      rw [walksMiddle _ (pathRest j listed) 0 frame]
      exact and_iff_left fun cut => first j listed cut.2
    have thereRest (j : Nat) (listed : j ∈ rest) :
        ∃ frame, Walk arch root middle (pathOf (virt + j * page)) 0 frame := by
      obtain ⟨frame, reached⟩ := there j (mem_cons_of_mem _ listed)
      exact ⟨frame, (kept j listed frame).mpr reached⟩
    refine (ih treeMiddle pathRest others thereRest).bind ?_
    rintro _ _ ⟨frames, rfl, mappedRest, nextAfter, treeAfter, walksAfter⟩
    refine .pure ⟨idx :: frames, rfl, .cons mapped ?_, nextAfter.trans nextMiddle,
      treeAfter.perm perm_middle, ?_⟩
    · rw [List.forall₂_iff_zip] at mappedRest ⊢
      refine ⟨mappedRest.1, fun {j frame} listed => ?_⟩
      exact (kept j (of_mem_zip listed).1 frame).mp (mappedRest.2 listed)
    · intro along walk low found
      rw [walksAfter along walk low found, walksMiddle along walk low found, and_assoc, ← not_or,
        Nat.le_zero, ← and_or_left]
      simp only [mem_cons, exists_eq_or_imp]

end

/-- Giving loose frames back keeps the walks. -/
theorem freeFrames_meets {frames : List Nat} (grounded : Grounded root start)
    (tree : Tree arch root start (frames ++ loose) region) :
    (Program.forEach (frames.map (· * frameSize)) freeFrame).Meets region
      (fun _ after => Tree arch root start loose after ∧ SameWalks arch root region after ∧
        after.next = region.next) fun _ _ => False := by
  induction frames generalizing region with
  | nil => exact .pure ⟨tree, fun _ _ _ _ => Iff.rfl, rfl⟩
  | cons idx rest ih =>
    refine (freeFrame_meets grounded tree).bind ?_
    rintro _ _ ⟨treeMiddle, same, next⟩
    refine (ih treeMiddle).imp ?_
    rintro _ after ⟨treeAfter, sameAfter, nextAfter⟩
    exact ⟨treeAfter, fun along walk low found =>
      (sameAfter along walk low found).trans (same along walk low found), nextAfter.trans next⟩

/-- A stack has been released, and some tables with it. -/
structure Released (arch : Arch) (root : Nat) (start : FrameAllocator) (virt : Nat)
    (gone : List Nat) (before after : Region) : Prop where
  tree : Tree arch root start [] after
  next : after.next = before.next
  full : Full arch root after
  walks : ∀ along, Path arch along → ∀ low found, Walk arch root after along low found ↔
    (Walk arch root before along low found ∧ ¬(low = 0 ∧ ∃ i ∈ List.range pageCount,
      Format.SameAbove 0 4 (pathOf (virt + i * page)) along)) ∧ found ∉ gone
  tables : ∀ frame ∈ gone, ∃ low, 1 ≤ low ∧ low ≤ 2 ∧ Walk arch root before (pathOf virt) low frame

/-- Once its pages are unmapped, only the tables on the way to a stack may be empty. -/
theorem drained_of_unmapped (full : Full arch root region) (slot : Slot guard)
    (walks : ∀ along, Path arch along → ∀ low found, Walk arch root after along low found ↔
      Walk arch root region along low found ∧ ¬(low = 0 ∧ ∃ i ∈ List.range pageCount,
        Format.SameAbove 0 4 (pathOf (guard + page + i * page)) along)) :
    Drained arch root (guard + page) 1 after := by
  intro along walk low table least most reached
  obtain wrong | ⟨other, onward, under, frame, mapped⟩ :=
    full along walk low table least most ((walks along walk low table).mp reached).1
  · cases wrong
  · by_cases cut : ∃ i ∈ List.range pageCount,
        Format.SameAbove 0 4 (pathOf (guard + page + i * page)) other
    · obtain ⟨i, listed, on⟩ := cut
      have inside := mul_page_lt (succ_lt_of_page (mem_range.mp listed))
      have way := sameAbove_slot slot.aligned (show page < stride by decide) inside
      rw [Nat.succ_mul, Nat.add_comm (i * page), ← Nat.add_assoc] at way
      refine .inl ⟨least, fun level later before => ?_⟩
      calc along level = other level := (under level later before).symm
        _ = pathOf (guard + page + i * page) level := on level (by omega) before
        _ = pathOf (guard + page) level := way level (by omega) before
    · exact .inr ⟨other, onward, under, frame,
        (walks other onward 0 frame).mpr ⟨mapped, fun both => cut both.2⟩⟩

/-- A stack whose pages are mapped can be released. -/
theorem release_meets {phys frame : Nat} (grounded : Grounded root start)
    (tree : Tree arch root start [] region) (full : Full arch root region) (slot : Slot guard)
    (place : virt = guard + page) (there : ∀ i < pageCount, ∃ frame,
      Walk arch root region (pathOf (virt + i * page)) 0 frame)
    (first : Walk arch root region (pathOf virt) 0 frame) (same : phys = frame * frameSize) :
    (release arch root virt phys).Meets region
      (fun count after => ∃ gone, Released arch root start virt gone region after ∧
        count = pageCount + gone.length) fun _ _ => False := by
  subst place
  have low := slot.low
  have high := slot.high
  have pathFirst : Path arch (pathOf (guard + page)) :=
    slot.path arch (show page < stride by decide)
  have apart : (List.range pageCount).Pairwise fun i j =>
      ¬Format.SameAbove 0 4 (pathOf (guard + page + i * page))
        (pathOf (guard + page + j * page)) := by
    refine nodup_range.pairwise_of_forall_ne fun i listed j listedToo different on => ?_
    have shift (k : Nat) : guard + page + k * page = guard + (k + 1) * page := by
      rw [Nat.succ_mul]
      omega
    rw [shift i, shift j] at on
    have equal := (slot.eq_of_sameAbove slot (succ_lt_of_page (mem_range.mp listed))
      (succ_lt_of_page (mem_range.mp listedToo)) on).2
    omega
  have least : 2 * page ≤ stride := by decide
  have most : page + stackSize < stride := by decide
  have room : base + 2 * page ≤ guard + page ∧ guard + page + stackSize < limit := by omega
  refine .require ?_ ?_
  · exact room
  refine (unmapPages_meets grounded tree
    (fun i listed => slot.path_page arch (mem_range.mp listed)) apart
    fun i listed => there i (mem_range.mp listed)).bind ?_
  rintro _ _ ⟨frames, rfl, mapped, nextUnmapped, treeUnmapped, walksUnmapped⟩
  refine .require ?_ ?_
  · rw [show List.range pageCount = 0 :: (List.range 7).map (· + 1) from rfl] at mapped
    cases mapped with
    | cons head _ =>
      rw [Nat.zero_mul] at head
      rw [same, first.unique head]
      rfl
  have drained := drained_of_unmapped full slot walksUnmapped
  obtain ⟨pt, way⟩ := first.passes (Nat.zero_le 1) (by decide)
  have table := (walksUnmapped _ pathFirst 1 pt).mpr ⟨way, fun wrong => absurd wrong.1 (by decide)⟩
  refine (detachEmpty_meets grounded treeUnmapped pathFirst drained table).bind ?_
  rintro ⟨pt, pd⟩ detached ⟨gone, detaches, retired⟩
  have treeDetached : Tree arch root start (frames ++ (gone ++ [])) detached :=
    detaches.tree.perm (by
      rw [← append_assoc, ← append_assoc]
      exact perm_append_comm.append_right [])
  refine (freeFrames_meets grounded treeDetached).bind ?_
  rintro _ freed ⟨treeFreed, sameFreed, nextFreed⟩
  have retiring : (Program.forEach [pt, pd] fun pa => Program.when (pa ≠ 0) (freeFrame pa)).Meets
      freed (fun _ after => Tree arch root start [] after ∧ SameWalks arch root freed after ∧
        after.next = freed.next) fun _ _ => False := by
    refine .of_eq (Program.forEach_when ..) ?_
    rw [show ([pt, pd].filter fun pa => pa ≠ 0) = _ from retired]
    exact freeFrames_meets grounded treeFreed
  refine retiring.bind ?_
  rintro _ _ ⟨treeAfter, sameAfter, nextAfter⟩
  refine .pure ⟨gone, ⟨treeAfter, ?_, ?_, ?_, ?_⟩, ?_⟩
  · rw [nextAfter, nextFreed, detaches.next, nextUnmapped]
  · exact (FullBut.congr detaches.full sameFreed).congr sameAfter
  · intro along walk low found
    rw [sameAfter along walk low found, sameFreed along walk low found,
      detaches.walks along walk low found, walksUnmapped along walk low found]
  · intro frame listed
    obtain ⟨low, least, most, reached⟩ := detaches.tables frame listed
    exact ⟨low, least, most, ((walksUnmapped _ pathFirst low frame).mp reached).1⟩
  · rw [show ([pt, pd].filter fun pa => pa ≠ 0) = _ from retired, length_map]
    rfl

end Calls

end Mmurtl.Stacks

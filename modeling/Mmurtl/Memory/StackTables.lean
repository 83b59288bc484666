/-
This file proves what mapping, unmapping and detaching do to the page tables of the stack
region. What is mapped where is said by the walks through the tables: a page is mapped to a
frame if the walk along its path ends at this frame.
-/

import Mmurtl.Library.Walks
import Mmurtl.Memory.Stacks

namespace Mmurtl.Stacks

open Frames User Tables List

variable {frame level found : Nat} {other : List Nat}

/-! ### Walks -/

theorem nodup_indices (depth : Nat) : (if depth = 4 then [448] else tableEntries).Nodup := by
  split
  · exact nodup_singleton _
  · exact nodup_tableEntries

theorem indices_inside (depth index : Nat)
    (used : index ∈ if depth = 4 then [448] else tableEntries) : 8 * index + 8 ≤ frameSize := by
  split at used
  · rw [mem_singleton.mp used]
    decide
  · have below := mem_tableEntries.mp used
    unfold frameSize
    omega

/-- The tables of the region: the root is only used for the slot of the region. -/
def tables (arch : Arch) : Format where
  size := frameSize
  indices depth := if depth = 4 then [448] else tableEntries
  present := arch.present
  frame := arch.frame
  distinct := nodup_indices
  inside := indices_inside

/-- A path through the tables of the region. -/
def Path (arch : Arch) (along : Nat → Nat) : Prop :=
  ∀ depth, along (depth + 1) ∈ (tables arch).indices (depth + 1)

/-- A walk from the root along a path. -/
abbrev Walk (arch : Arch) (root : Nat) (region : Region) (along : Nat → Nat) (low found : Nat) :
    Prop :=
  (tables arch).Reaches region.memory along low found 4 root

/-- The paths to addresses of the region stay in the region. -/
theorem path_of_region (arch : Arch) {va : Nat} (low : base ≤ va) (high : va < limit) :
    Path arch (pathOf va) := by
  unfold base at low
  unfold limit base at high
  exact tableIndex_mem (by omega)

theorem indices_ne_nil (arch : Arch) (depth : Nat) : (tables arch).indices (depth + 1) ≠ [] := by
  show (if depth + 1 = 4 then [448] else tableEntries) ≠ []
  split
  · exact cons_ne_nil _ _
  · exact ne_nil_of_mem (mem_tableEntries.mpr (show 0 < 512 by decide))

/-! ### The tree of the region -/

/-- Where the region comes from: a root table and a frame at address zero that are in use, and
frames that entries can refer to. -/
structure Grounded (root : Nat) (start : FrameAllocator) : Prop where
  used : start.bitmap root = true
  zero : start.bitmap 0 = true
  small : start.totalFrames ≤ 2 ^ 36

/-- What is asserted of an entry before it is followed holds, and it maps no block. -/
def Arch.Leads (arch : Arch) (word : Nat) : Prop :=
  arch.tableOk word = true ∧ arch.isBlock word = false

/-- Since some state, the frames of the region and some loose ones have been taken. What a walk
follows may be followed. -/
structure Tree (arch : Arch) (root : Nat) (start : FrameAllocator) (loose : List Nat)
    (region : Region) : Prop where
  holds : Holds start (loose ++ (tables arch).below region.memory 4 root) region.frames
  ok : ∀ along, Path arch along → ∀ level table, level < 3 →
    Walk arch root region along (level + 2) table →
    arch.present ((tables arch).entry region.memory table (along (level + 2))) = true →
    arch.Leads ((tables arch).entry region.memory table (along (level + 2)))

/-- Two states with the same walks. -/
def SameWalks (arch : Arch) (root : Nat) (before after : Region) : Prop :=
  ∀ along, Path arch along → ∀ low found,
    Walk arch root after along low found ↔ Walk arch root before along low found

section Tree

variable {arch : Arch} {root : Nat} {start : FrameAllocator} {loose : List Nat}
  {region after : Region}

theorem Tree.exclusive (grounded : Grounded root start) (tree : Tree arch root start loose region) :
    Format.Exclusive (tables arch) region.memory 4 root := by
  refine nodup_append.mpr ⟨List.Nodup.of_append_right tree.holds.distinct, nodup_singleton _, ?_⟩
  intro frame inside _ same wrong
  rw [mem_singleton] at same
  have free := tree.holds.free frame (mem_append_right _ inside)
  rw [wrong, same, grounded.used] at free
  cases free

/-- No frame of the region is at address zero. -/
theorem Tree.ne_zero (grounded : Grounded root start) (tree : Tree arch root start loose region)
    (inside : frame ∈ (tables arch).below region.memory 4 root) : frame ≠ 0 := by
  rintro rfl
  have free := tree.holds.free 0 (mem_append_right _ inside)
  rw [grounded.zero] at free
  cases free

/-- The frames of the region are those that walks lead to. -/
theorem mem_below (arch : Arch) (root : Nat) (region : Region) :
    frame ∈ (tables arch).below region.memory 4 root ↔
      ∃ along low, Path arch along ∧ low < 4 ∧ Walk arch root region along low frame :=
  Format.mem_below_iff (indices_ne_nil arch)

/-- The frames in use are those that were, the loose ones and those of the region. -/
theorem Tree.used_iff (tree : Tree arch root start loose region) :
    region.frames.bitmap frame = true ↔ start.bitmap frame = true ∨ frame ∈ loose ∨
        frame ∈ (tables arch).below region.memory 4 root := by
  rw [tree.holds.bitmap, Bool.or_eq_true, decide_eq_true_iff, mem_append]

/-- What does not touch the tables keeps the walks. -/
theorem Tree.keep (tree : Tree arch root start loose region)
    (agree : ∀ frame ∈ (tables arch).tables region.memory 4 root,
      (tables arch).AgreeAt region.memory after.memory frame)
    (holds : Holds start (other ++ (tables arch).below region.memory 4 root) after.frames) :
    Tree arch root start other after ∧ SameWalks arch root region after := by
  have below : (tables arch).below after.memory 4 root =
      (tables arch).below region.memory 4 root := Format.below_congr agree
  have walks : SameWalks arch root region after := fun along path low found =>
    Format.reaches_congr path agree
  refine ⟨⟨by rw [below]; exact holds, fun along path level table shallow reaches => ?_⟩, walks⟩
  have before := (walks along path _ _).mp reaches
  rw [Format.entry_congr (path (level + 1)) (agree table (before.mem_tables path))]
  exact tree.ok along path level table shallow before

variable {idx : Nat}

section

variable (grounded : Grounded root start)
include grounded

/-- What touches only a frame that is not in the tree keeps its walks. -/
theorem Tree.keep_beside (tree : Tree arch root start loose region)
    (agree : ∀ byte, byte / frameSize ≠ idx → after.memory byte = region.memory byte)
    (free : start.bitmap idx = false) (away : idx ∉ (tables arch).below region.memory 4 root)
    (holds : Holds start (other ++ (tables arch).below region.memory 4 root) after.frames) :
    Tree arch root start other after ∧ SameWalks arch root region after := by
  refine tree.keep (fun frame listed byte inside => agree byte ?_) holds
  have inside : byte / frameSize = frame := inside
  rw [inside]
  rintro rfl
  rcases Format.mem_of_mem_tables listed with rfl | deeper
  · rw [grounded.used] at free
    cases free
  · exact away deeper

/-! ### Frames -/

/-- Taking a frame keeps the walks; the frame is zero and loose. -/
theorem takeFrame_ensures (tree : Tree arch root start loose region) :
    takeFrame.Ensures region fun pa after => ∃ idx, pa = idx * frameSize ∧ idx < 2 ^ 36 ∧
      Tree arch root start (idx :: loose) after ∧ SameWalks arch root region after ∧
      after.next = region.next ∧ after.memory.ZeroOn (idx * frameSize) frameSize := by
  have meets : (onFrames FrameAllocator.allocateZeroedFrame).Meets region
      (fun found after => after.next = region.next ∧ ∀ pa, found = some pa →
        ∃ idx, pa = idx * frameSize ∧ Grows start
          (loose ++ (tables arch).below region.memory 4 root) region.frames idx after.frames)
      (fun _ _ => False) := by
    refine .within ((allocateZeroedFrame_grows tree.holds).imp ?_)
    rintro found frames (⟨rfl, rfl⟩ | ⟨idx, rfl, grows⟩)
    · exact ⟨rfl, nofun⟩
    · exact ⟨rfl, fun pa same => ⟨idx, (Option.some.inj same).symm, grows⟩⟩
  refine Program.Ensures.bind (fun found after run => meets.ok run) ?_
  rintro (_ | _) after ⟨next, gives⟩ _ _ run
  · cases run
  · cases run
    obtain ⟨idx, rfl, grows⟩ := gives _ rfl
    have away := (nodup_cons.mp grows.holds.distinct).1
    have first : idx ∈ idx :: (loose ++ (tables arch).below region.memory 4 root) :=
      mem_cons_self
    obtain ⟨keeps, walks⟩ := tree.keep_beside grounded grows.agree (grows.holds.free idx first)
      (fun inside => away (mem_append_right _ inside))
      (show Holds start (idx :: loose ++ (tables arch).below region.memory 4 root) after.frames from
        grows.holds)
    have small := (grows.holds.small idx first).1
    rw [grows.holds.total] at small
    exact ⟨idx, rfl, Nat.lt_of_lt_of_le small grounded.small, keeps, walks, next, grows.zero⟩

/-- Giving a loose frame back keeps the walks. -/
theorem freeFrame_meets (tree : Tree arch root start (idx :: loose) region) :
    (freeFrame (idx * frameSize)).Meets region
      (fun _ after => Tree arch root start loose after ∧ SameWalks arch root region after ∧
        after.next = region.next) fun _ _ => False := by
  refine .within ((deallocateFrame_shrinks tree.holds).imp ?_)
  rintro _ frames ⟨holds, agree⟩
  have away := (nodup_cons.mp tree.holds.distinct).1
  have kept : Tree arch root start loose ⟨frames, region.next⟩ ∧
      SameWalks arch root region ⟨frames, region.next⟩ :=
    tree.keep_beside grounded agree (tree.holds.free idx mem_cons_self)
      (fun inside => away (mem_append_right _ inside)) holds
  exact ⟨kept.1, kept.2, rfl⟩

/-- Clearing a loose frame keeps the walks. -/
theorem scrub_meets (tree : Tree arch root start (idx :: loose) region) :
    (onFrames (FrameAllocator.scrub (idx * frameSize) frameSize)).Meets region
      (fun _ after => Tree arch root start (idx :: loose) after ∧ SameWalks arch root region after ∧
        after.next = region.next ∧ after.memory.ZeroOn (idx * frameSize) frameSize)
      fun _ _ => False := by
  obtain ⟨zero, agree⟩ := clear_frame region.memory idx
  have away := (nodup_cons.mp tree.holds.distinct).1
  have first : idx ∈ idx :: (loose ++ (tables arch).below region.memory 4 root) :=
    mem_cons_self
  have kept : Tree arch root start (idx :: loose) (region.setMemory
        (region.memory.clear (idx * frameSize) (frameSize / 8))) ∧
      SameWalks arch root region (region.setMemory
        (region.memory.clear (idx * frameSize) (frameSize / 8))) :=
    tree.keep_beside grounded agree (tree.holds.free idx first)
      (fun inside => away (mem_append_right _ inside))
      (tree.holds.write fun byte outside => agree byte fun same => outside (same ▸ first))
  exact .of_ok rfl ⟨kept.1, kept.2, rfl, zero⟩

end

/-! ### Entries -/

theorem place_eq (arch : Arch) (table va level : Nat) :
    table * frameSize + 8 * tableIndex va level =
      (tables arch).place table (pathOf va (level + 1)) := rfl

variable {va depth table word : Nat}

/-- The region after a write to the entry at the end of a walk. -/
def Region.put (arch : Arch) (region : Region) (table index word : Nat) : Region :=
  region.setMemory (region.memory.writeWord ((tables arch).place table index) word)

theorem Region.put_written (region : Region) (table depth : Nat) (path : Path arch (pathOf va))
    (fits : word < 2 ^ 64) : Format.Written (tables arch) region.memory table
      (pathOf va (depth + 1)) word (region.put arch table (pathOf va (depth + 1)) word).memory :=
  Format.written_writeWord (path depth) fits

section

variable (grounded : Grounded root start) (tree : Tree arch root start loose region)
  (path : Path arch (pathOf va)) (reaches : Walk arch root region (pathOf va) (depth + 1) table)
include grounded tree path reaches

/-- What a walk that was there follows after such a write may be followed. -/
theorem Tree.ok_of_put (fits : word < 2 ^ 64)
    (fine : arch.present word = true → 0 < depth → arch.Leads word) {along : Nat → Nat}
    (walk : Path arch along) (shallow : level < 3)
    (there : Walk arch root region along (level + 2) found)
    (present : arch.present ((tables arch).entry (region.put arch table (pathOf va (depth + 1))
      word).memory found (along (level + 2))) = true) :
    arch.Leads ((tables arch).entry (region.put arch table (pathOf va (depth + 1)) word).memory
      found (along (level + 2))) := by
  have written := region.put_written table depth path fits
  by_cases same : found = table
  · subst same
    have level_ := reaches.depth_unique there path walk (tree.exclusive grounded)
    by_cases here : along (level + 2) = pathOf va (depth + 1)
    · rw [here, written.written] at present ⊢
      exact fine present (by omega)
    · rw [written.siblings _ here] at present ⊢
      exact tree.ok along walk level found shallow there present
  · rw [written.entry (walk (level + 1)) same] at present ⊢
    exact tree.ok along walk level found shallow there present

/-- The tables of the tree are in use, and may be written to. -/
theorem Tree.put_holds (word : Nat) :
    Holds start (loose ++ (tables arch).below region.memory 4 root)
      (region.put arch table (pathOf va (depth + 1)) word).frames := by
  refine tree.holds.store fun byte free => ?_
  refine Format.agreeAt_writeWord (path depth) (fun same => ?_) word byte rfl
  have same : byte / frameSize = table := same
  rw [same] at free
  rcases reaches.mem path with rfl | inside
  · rw [tree.holds.bitmap, grounded.used] at free
    cases free
  · rw [tree.holds.used (mem_append_right _ inside)] at free
    cases free

/-- The walks through an entry on the way to an address were cut. -/
def Cuts (arch : Arch) (root va depth : Nat) (before after : Region) : Prop :=
  ∀ along, Path arch along → ∀ low found, Walk arch root after along low found ↔
    Walk arch root before along low found ∧
      ¬(low ≤ depth ∧ Format.SameAbove depth 4 (pathOf va) along)

/-- Clearing an entry at the end of a walk to an empty table makes this table loose, and cuts the
walks through the entry. -/
theorem Tree.cut (present : arch.present
      ((tables arch).entry region.memory table (pathOf va (depth + 1))) = true)
    (refers : arch.frame ((tables arch).entry region.memory table (pathOf va (depth + 1))) = idx)
    (empty : (tables arch).below region.memory depth idx = []) :
    Tree arch root start (idx :: loose) (region.put arch table (pathOf va (depth + 1)) 0) ∧
      Cuts arch root va depth region (region.put arch table (pathOf va (depth + 1)) 0) := by
  have exclusive := tree.exclusive grounded
  have written := region.put_written table depth path (by decide : 0 < 2 ^ 64)
  obtain ⟨shrunk, -⟩ := reaches.unlink path exclusive written present refers empty arch.absent
  have walks : Cuts arch root va depth region
      (region.put arch table (pathOf va (depth + 1)) 0) := fun along walk low found =>
    reaches.cut_iff path walk exclusive written low found arch.absent
  refine ⟨⟨(tree.put_holds grounded path reaches 0).perm ?_, ?_⟩, walks⟩
  · exact (shrunk.append_left loose).trans perm_middle
  · intro along walk _ found shallow reached presentHere
    refine tree.ok_of_put grounded path reaches (by decide : 0 < 2 ^ 64) (fun wrong => ?_) walk
      shallow ((walks along walk _ _).mp reached).1 presentHere
    rw [arch.absent] at wrong
    cases wrong

end

/-- A loose frame was linked at the end of the way to an address, and its walk was added. -/
def Links (arch : Arch) (root va depth idx : Nat) (before after : Region) : Prop :=
  ∀ along, Path arch along → ∀ low found, Walk arch root after along low found ↔
    Walk arch root before along low found ∨
      low = depth ∧ found = idx ∧ Format.SameAbove depth 4 (pathOf va) along

/-- Linking a loose frame at the end of a walk adds the walk to it. -/
theorem Tree.link (grounded : Grounded root start)
    (tree : Tree arch root start (idx :: loose) region) (path : Path arch (pathOf va))
    (reaches : Walk arch root region (pathOf va) (depth + 1) table) (absent : arch.present
      ((tables arch).entry region.memory table (pathOf va (depth + 1))) = false)
    (empty : (tables arch).below region.memory depth idx = [])
    (refers : word < 2 ^ 64 ∧ arch.present word = true ∧ arch.frame word = idx)
    (fine : 0 < depth → arch.Leads word) :
    Tree arch root start loose (region.put arch table (pathOf va (depth + 1)) word) ∧
      Links arch root va depth idx region (region.put arch table (pathOf va (depth + 1)) word) := by
  obtain ⟨away, distinct⟩ := nodup_cons.mp tree.holds.distinct
  have exclusive := tree.exclusive grounded
  have free := tree.holds.free idx mem_cons_self
  have new : idx ≠ root ∧ idx ∉ (tables arch).below region.memory 4 root := by
    refine ⟨?_, fun inside => away (mem_append_right _ inside)⟩
    rintro rfl
    rw [grounded.used] at free
    cases free
  obtain ⟨fits, present, frame⟩ := refers
  have written := region.put_written table depth path fits
  obtain ⟨grown, -⟩ := reaches.link path exclusive written absent new empty present frame
  have walks : Links arch root va depth idx region
      (region.put arch table (pathOf va (depth + 1)) word) := fun along walk low found =>
    reaches.link_iff path walk exclusive written absent new empty present frame
  refine ⟨⟨(tree.put_holds grounded path reaches word).perm ?_, ?_⟩, walks⟩
  · rw [cons_append]
    exact (perm_middle.symm).trans (grown.symm.append_left loose)
  · intro along walk level _ shallow reached presentHere
    rcases (walks along walk _ _).mp reached with before | ⟨same, rfl, -⟩
    · exact tree.ok_of_put grounded path reaches fits
        (fun _ => fine) walk shallow before presentHere
    · rw [← same] at empty
      rw [written.entry (walk (level + 1)) (reaches.ne_of_new path new), show arch.present _ = false
        from Format.below_eq_nil_iff.mp empty _ (walk (level + 1))] at presentHere
      cases presentHere

/-! ### Mapping -/

/-- Tables on the way to an address were created, and no other walk was. -/
structure Opened (arch : Arch) (root va : Nat) (before after : Region) : Prop where
  keeps : ∀ along, Path arch along → ∀ low found,
    Walk arch root before along low found → Walk arch root after along low found
  adds : ∀ along, Path arch along → ∀ low found, Walk arch root after along low found →
    Walk arch root before along low found ∨
      0 < low ∧ Format.SameAbove low 4 (pathOf va) along

theorem SameWalks.opened (same : SameWalks arch root region after) (va : Nat) :
    Opened arch root va region after where
  keeps along path low found := (same along path low found).mpr
  adds along path low found reached := .inl ((same along path low found).mp reached)

theorem Opened.trans {last : Region} (first : Opened arch root va region after)
    (second : Opened arch root va after last) : Opened arch root va region last where
  keeps along path low found reached :=
    second.keeps along path low found (first.keeps along path low found reached)
  adds along path low found reached :=
    (second.adds along path low found reached).elim (first.adds along path low found) .inr

section

variable (grounded : Grounded root start) (tree : Tree arch root start loose region)
  (path : Path arch (pathOf va))
include grounded tree path

/-- An entry on the way to an address leads to a table, which is created if it is missing. -/
theorem ensureTable_ensures (reaches : Walk arch root region (pathOf va) (level + 2) table) :
    (ensureTable arch (table * frameSize + 8 * tableIndex va (level + 1))).Ensures region
      fun next after => ∃ found, next = found * frameSize ∧ Tree arch root start loose after ∧
        after.next = region.next ∧ Walk arch root after (pathOf va) (level + 1) found ∧
        Opened arch root va region after := by
  rw [place_eq arch]
  refine .gets ?_
  show Program.Ensures (if arch.present ((tables arch).entry region.memory table
    (pathOf va (level + 2))) = true then _ else _) _ _
  by_cases present : arch.present ((tables arch).entry region.memory table
    (pathOf va (level + 2))) = true
  · rw [if_pos present]
    have same : SameWalks arch root region region := fun _ _ _ _ => Iff.rfl
    exact .require fun _ => .pure ⟨_, rfl, tree, rfl, reaches.extend present, same.opened va⟩
  · rw [if_neg present]
    refine (takeFrame_ensures grounded tree).bind ?_
    rintro _ taken ⟨idx, rfl, small, treeTaken, sameTaken, nextTaken, zero⟩
    have cleared : (Program.when (arch.zeroesTables = true)
        (onFrames (FrameAllocator.scrub (idx * frameSize) frameSize)) : Call Unit).Ensures taken
        fun _ after => Tree arch root start (idx :: loose) after ∧ SameWalks arch root taken after ∧
          after.next = taken.next ∧ after.memory.ZeroOn (idx * frameSize) frameSize :=
      .when (fun _ value after run => (scrub_meets grounded treeTaken).ok run)
        fun _ => ⟨treeTaken, fun _ _ _ _ => Iff.rfl, rfl, zero⟩
    refine cleared.bind ?_
    rintro _ clean ⟨treeClean, sameClean, nextClean, zeroClean⟩
    have same : SameWalks arch root region clean := fun along walk low found =>
      (sameClean along walk low found).trans (sameTaken along walk low found)
    have reachesClean := (same _ path _ _).mpr reaches
    have absent : arch.present
        ((tables arch).entry clean.memory table (pathOf va (level + 2))) = false := by
      by_contra there
      have further := (same _ path _ _).mp
        (reachesClean.extend ((Bool.not_eq_false _).mp there))
      exact present ((Format.reaches_succ (Nat.le_refl _)).mp
        ((reaches.through (Nat.le_succ _)).mp further)).1
    obtain ⟨fits, refers, frame, ok⟩ := arch.table_refers idx small
    obtain ⟨linked, walks⟩ := treeClean.link grounded path reachesClean absent
      (Format.below_of_zero arch.absent zeroClean) ⟨fits, refers, frame⟩ fun _ => ok
    refine .changes (.require fun _ => .pure ⟨idx, by rw [frame], linked,
      nextClean.trans nextTaken, ?_, (same.opened va).trans ⟨?_, ?_⟩⟩)
    · exact (walks _ path _ _).mpr (.inr ⟨rfl, rfl, fun _ _ _ => rfl⟩)
    · exact fun along walk low found reached => (walks along walk low found).mpr (.inl reached)
    · intro along walk low found reached
      rcases (walks along walk low found).mp reached with before | ⟨rfl, -, on⟩
      · exact .inl before
      · exact .inr ⟨Nat.succ_pos _, on⟩

/-- A walk that creates tables ends at the entry of its address. -/
theorem walkCreate_ensures (reaches : Walk arch root region (pathOf va) (level + 1) table) :
    (walkCreate arch va level (table * frameSize)).Ensures region
      fun place after => ∃ last, place = (tables arch).place last (pathOf va 1) ∧
        Tree arch root start loose after ∧ after.next = region.next ∧
        Walk arch root after (pathOf va) 1 last ∧ Opened arch root va region after := by
  induction level generalizing table region with
  | zero =>
    have same : SameWalks arch root region region := fun _ _ _ _ => Iff.rfl
    exact .pure ⟨table, rfl, tree, rfl, reaches, same.opened va⟩
  | succ level ih =>
    refine (ensureTable_ensures grounded tree path reaches).bind ?_
    rintro _ _ ⟨_, rfl, treeMiddle, nextMiddle, reachesMiddle, opened⟩
    refine (ih treeMiddle reachesMiddle).mono ?_
    rintro _ _ ⟨last, same, treeAfter, nextAfter, reachesAfter, openedAfter⟩
    exact ⟨last, same, treeAfter, nextAfter.trans nextMiddle, reachesAfter,
      opened.trans openedAfter⟩

end

/-- Every lower table of the region leads to a page, except on the way to some addresses. -/
def FullBut (arch : Arch) (root : Nat) (region : Region) (spared : Nat → (Nat → Nat) → Prop) :
    Prop :=
  ∀ along, Path arch along → ∀ low table, 1 ≤ low → low ≤ 2 →
    Walk arch root region along low table → spared low along ∨
      ∃ other, Path arch other ∧ Format.SameAbove low 4 along other ∧
        ∃ frame, Walk arch root region other 0 frame

/-- Every lower table of the region leads to a page. -/
def Full (arch : Arch) (root : Nat) (region : Region) : Prop :=
  FullBut arch root region fun _ _ => False

/-- Mapping a page adds the walk to it. -/
theorem map_ensures (grounded : Grounded root start)
    (tree : Tree arch root start (idx :: loose) region) (small : idx < 2 ^ 36)
    (full : Full arch root region) (path : Path arch (pathOf va)) :
    (map arch root va (idx * frameSize)).Ensures region
      fun _ after => Tree arch root start loose after ∧ after.next = region.next ∧
        Full arch root after ∧ ∀ along, Path arch along → ∀ found,
          Walk arch root after along 0 found ↔ Walk arch root region along 0 found ∨
            found = idx ∧ Format.SameAbove 0 4 (pathOf va) along := by
  refine .require fun _ => ?_
  refine (walkCreate_ensures grounded tree path .here).bind ?_
  rintro _ middle ⟨last, rfl, treeMiddle, nextMiddle, reachesMiddle, opened⟩
  refine .gets (.require fun absent => ?_)
  obtain ⟨linked, walks⟩ := treeMiddle.link grounded path reachesMiddle absent rfl
    (arch.page_refers idx small) fun wrong => absurd wrong (Nat.lt_irrefl 0)
  have pages : ∀ along, Path arch along → ∀ found,
      Walk arch root (middle.put arch last (pathOf va 1) (arch.pageWord (idx * frameSize))) along 0
          found ↔
        Walk arch root region along 0 found ∨
          found = idx ∧ Format.SameAbove 0 4 (pathOf va) along := by
    intro along walk found
    refine (walks along walk 0 found).trans ⟨?_, ?_⟩
    · rintro (before | ⟨-, added⟩)
      · rcases opened.adds along walk 0 found before with old | ⟨wrong, -⟩
        · exact .inl old
        · exact absurd wrong (Nat.lt_irrefl 0)
      · exact .inr added
    · rintro (before | added)
      · exact .inl (opened.keeps along walk 0 found before)
      · exact .inr ⟨rfl, added⟩
  refine .modify ⟨linked, nextMiddle, ?_, pages⟩
  intro along walk low table least most reached
  refine .inr ?_
  rcases (walks along walk low table).mp reached with before | ⟨rfl, -⟩
  · rcases opened.adds along walk low table before with old | ⟨-, on⟩
    · obtain wrong | ⟨other, walkOther, same, frame, page⟩ :=
        full along walk low table least most old
      · cases wrong
      · exact ⟨other, walkOther, same, frame, (pages other walkOther frame).mpr (.inl page)⟩
    · exact ⟨pathOf va, path, on.symm, idx, (pages _ path idx).mpr (.inr ⟨rfl, fun _ _ _ => rfl⟩)⟩
  · cases least

/-! ### Looking a page up -/

section

variable (tree : Tree arch root start loose region) (path : Path arch (pathOf va))
  (reaches : Walk arch root region (pathOf va) (level + 1) table)
include tree path reaches

/-- Looking a page up finds whether a walk leads to it. -/
theorem walkMapped_meets :
    (walkMapped arch va level (table * frameSize)).Meets region (fun found after => after = region ∧
        (found = true ↔ ∃ frame, Walk arch root region (pathOf va) 0 frame)) fun _ _ => False := by
  induction level generalizing table with
  | zero =>
    refine .gets (.pure ⟨rfl, ?_⟩)
    constructor
    · intro present
      exact ⟨_, reaches.extend present⟩
    · rintro ⟨frame, leads⟩
      exact ((Format.reaches_succ (Nat.le_refl _)).mp
        ((reaches.through (Nat.zero_le _)).mp leads)).1
  | succ level ih =>
    refine .gets ?_
    split
    case isTrue absent =>
      refine .pure ⟨rfl, iff_of_false Bool.false_ne_true ?_⟩
      rintro ⟨_, leads⟩
      have present := ((Format.reaches_succ (Nat.zero_le _)).mp
        ((reaches.through (Nat.zero_le _)).mp leads)).1
      have absent : (tables arch).present ((tables arch).entry region.memory table
        (pathOf va (level + 2))) = false := absent
      rw [absent] at present
      cases present
    case isFalse there =>
      have present := (Bool.not_eq_false _).mp there
      have shallow := reaches.le
      have leads := tree.ok _ path level table (by omega) reaches present
      rw [show arch.isBlock (region.memory.readWord (table * frameSize + 8 *
        tableIndex va (level + 1))) = false from leads.2]
      exact ih (reaches.extend present)

/-- A walk through tables that are there ends at the entry of its address. -/
theorem walkFind_meets {last : Nat} (there : Walk arch root region (pathOf va) 1 last) :
    (walkFind arch va level (table * frameSize)).Meets region
      (fun place after => after = region ∧ place = (tables arch).place last (pathOf va 1))
      fun _ _ => False := by
  induction level generalizing table with
  | zero =>
    rw [reaches.unique there]
    exact .pure ⟨rfl, rfl⟩
  | succ level ih =>
    have shallow := reaches.le
    have present := ((Format.reaches_succ (Nat.le_add_left 1 level)).mp
      ((reaches.through (Nat.le_add_left 1 (level + 1))).mp there)).1
    have leads := tree.ok _ path level table (by omega) reaches present
    refine .gets (.require ⟨present, leads.1⟩ ?_)
    exact ih (reaches.extend present)

end

/-! ### Unmapping, and detaching empty tables -/

/-- The entries of a table are absent if nothing is below it. -/
theorem isEmpty_eq (arch : Arch) (region : Region) {depth : Nat} (lower : depth < 3) (table : Nat) :
    isEmpty arch (table * frameSize) region =
      (.ok (decide ((tables arch).below region.memory (depth + 1) table = [])), region) := by
  refine congrArg (fun found => (Outcome.ok found, region)) ?_
  rw [Bool.eq_iff_iff, decide_eq_true_iff, Format.below_eq_nil_iff, all_eq_true,
    show (tables arch).indices (depth + 1) = tableEntries from if_neg (by omega)]
  refine forall₂_congr fun index _ => ?_
  rw [Bool.not_eq_true']
  rfl

/-- Following an entry leads to the table the walk passes. -/
theorem follow_meets (tree : Tree arch root start loose region) (path : Path arch (pathOf va))
    (reaches : Walk arch root region (pathOf va) (level + 2) table)
    (further : Walk arch root region (pathOf va) (level + 1) found) :
    (follow arch (table * frameSize + 8 * tableIndex va (level + 1))).Meets region
      (fun pa after => after = region ∧ pa = found * frameSize) fun _ _ => False := by
  have shallow := reaches.le
  obtain ⟨present, rest⟩ := (Format.reaches_succ (Nat.le_refl _)).mp
    ((reaches.through (Nat.le_succ _)).mp further)
  have leads := tree.ok _ path level table (by omega) reaches present
  refine .gets (.require leads.1 (.pure ⟨rfl, ?_⟩))
  rw [Format.reaches_self.mp rest]
  rfl

theorem Tree.perm (tree : Tree arch root start loose region) (same : loose.Perm other) :
    Tree arch root start other region :=
  ⟨tree.holds.perm (same.append_right _), tree.ok⟩

/-- Every lower table leads to a page, but those on the way to an address from a depth on. -/
abbrev Drained (arch : Arch) (root va depth : Nat) (region : Region) : Prop :=
  FullBut arch root region fun low along => depth ≤ low ∧ Format.SameAbove low 4 (pathOf va) along

/-- A table with an entry leads to a page, and so does every table above it. -/
theorem Drained.full (drained : Drained arch root va (depth + 1) region) (lower : depth < 2)
    (path : Path arch (pathOf va)) (there : Walk arch root region (pathOf va) (depth + 1) idx)
    (some_ : (tables arch).below region.memory (depth + 1) idx ≠ []) : Full arch root region := by
  rw [Ne, Format.below_eq_nil_iff] at some_
  push Not at some_
  obtain ⟨index, used, present⟩ := some_
  have present := (Bool.not_eq_false _).mp present
  have onward : Path arch (Function.update (pathOf va) (depth + 1) index) := by
    intro level
    by_cases here : level = depth
    · rw [here, Function.update_self]
      exact used
    · rw [Function.update_of_ne (by omega)]
      exact path level
  have same : Format.SameAbove (depth + 1) 4 (pathOf va)
      (Function.update (pathOf va) (depth + 1) index) :=
    fun level after _ => Function.update_of_ne (by omega) ..
  have child : Walk arch root region (Function.update (pathOf va) (depth + 1) index) depth
      (arch.frame ((tables arch).entry region.memory idx index)) := by
    have step := there.path_congr same
    have next := step.extend (by rw [Function.update_self]; exact present)
    rw [Function.update_self] at next
    exact next
  obtain ⟨other, walk, under, page⟩ : ∃ other, Path arch other ∧
      Format.SameAbove (depth + 1) 4 (pathOf va) other ∧
      ∃ frame, Walk arch root region other 0 frame := by
    rcases Nat.eq_zero_or_pos depth with rfl | deeper
    · exact ⟨_, onward, same, _, child⟩
    · rcases drained _ onward depth _ deeper (by omega) child with ⟨_, -⟩ | ⟨other, walk, on, page⟩
      · omega
      · exact ⟨other, walk, fun level after before =>
          (on level (by omega) before).trans (same level after before), page⟩
  intro along walkAlong low table least most reached
  rcases drained along walkAlong low table least most reached with ⟨_, on⟩ | leads
  · exact .inr ⟨other, walk, fun level after before =>
      (under level (by omega) before).trans (on level after before).symm, page⟩
  · exact .inr leads

/-- Some tables on the way to an address have been detached. -/
structure Detached (arch : Arch) (root : Nat) (start : FrameAllocator) (va : Nat)
    (gone loose : List Nat) (before after : Region) : Prop where
  tree : Tree arch root start (gone ++ loose) after
  next : after.next = before.next
  full : Full arch root after
  walks : ∀ along, Path arch along → ∀ low found, Walk arch root after along low found ↔
    Walk arch root before along low found ∧ found ∉ gone
  tables : ∀ frame ∈ gone, ∃ low, 1 ≤ low ∧ low ≤ 2 ∧ Walk arch root before (pathOf va) low frame

theorem filter_addresses {frames : List Nat} (nonzero : ∀ frame ∈ frames, frame ≠ 0) :
    (frames.map (· * frameSize)).filter (fun pa => pa ≠ 0) = frames.map (· * frameSize) := by
  refine filter_eq_self.mpr fun pa listed => ?_
  obtain ⟨frame, inside, rfl⟩ := mem_map.mp listed
  exact decide_eq_true (Nat.mul_ne_zero (nonzero frame inside) (by decide))

section

variable (grounded : Grounded root start) (tree : Tree arch root start loose region)
  (path : Path arch (pathOf va))
include grounded tree path

/-- Unmapping a page makes its frame loose and cuts the walk to it. -/
theorem unmap_meets (there : Walk arch root region (pathOf va) 0 idx) :
    (unmap arch root va).Meets region
      (fun pa after => pa = idx * frameSize ∧ after.next = region.next ∧
        Tree arch root start (idx :: loose) after ∧ Cuts arch root va 0 region after)
      fun _ _ => False := by
  obtain ⟨last, above, present, refers⟩ := there.last (by decide)
  refine (walkFind_meets tree path .here above).bind ?_
  rintro _ _ ⟨rfl, rfl⟩
  obtain ⟨cut, walks⟩ := tree.cut grounded path above present refers rfl
  exact .gets (.require present (.changes (.pure ⟨by rw [← refers]; rfl, rfl, cut, walks⟩)))

/-- Detaching an empty table makes it loose. No other walk is cut. -/
theorem Tree.detach (drained : Drained arch root va (depth + 1) region)
    (above : Walk arch root region (pathOf va) (depth + 2) table)
    (there : Walk arch root region (pathOf va) (depth + 1) idx)
    (empty : (tables arch).below region.memory (depth + 1) idx = []) :
    Tree arch root start (idx :: loose) (region.put arch table (pathOf va (depth + 2)) 0) ∧
      (∀ along, Path arch along → ∀ low found,
        Walk arch root (region.put arch table (pathOf va (depth + 2)) 0) along low found ↔
          Walk arch root region along low found ∧ found ≠ idx) ∧
      Drained arch root va (depth + 2) (region.put arch table (pathOf va (depth + 2)) 0) := by
  have exclusive := tree.exclusive grounded
  obtain ⟨present, rest⟩ := (Format.reaches_succ (Nat.le_refl _)).mp
    ((above.through (Nat.le_succ _)).mp there)
  obtain ⟨cut, walks⟩ := tree.cut grounded path above present
    (Format.reaches_self.mp rest).symm empty
  have only : ∀ along, Path arch along → ∀ low found,
      Walk arch root (region.put arch table (pathOf va (depth + 2)) 0) along low found ↔
        Walk arch root region along low found ∧ found ≠ idx := by
    intro along walk low found
    refine (walks along walk low found).trans (and_congr_right fun reached => not_congr ?_)
    constructor
    · rintro ⟨under, on⟩
      exact (((there.path_congr on).through under).mp reached |>.of_empty walk empty).2
    · rintro rfl
      have level := there.depth_unique reached path walk exclusive
      subst level
      exact ⟨Nat.le_refl _, fun level after before =>
        there.injective reached path walk exclusive after before⟩
  refine ⟨cut, only, fun along walk low found least most reached => ?_⟩
  have before := (only along walk low found).mp reached
  rcases drained along walk low found least most before.1 with ⟨high, on⟩ | ⟨other, onward, under,
      frame, page⟩
  · refine .inl ⟨Nat.lt_of_le_of_ne high ?_, on⟩
    rintro rfl
    exact before.2 (there.unique (before.1.path_congr fun level after below =>
      (on level after below).symm))
  · refine .inr ⟨other, onward, under, frame, (only other onward 0 frame).mpr ⟨page, ?_⟩⟩
    rintro rfl
    exact absurd (there.depth_unique page path onward exclusive) (Nat.zero_ne_add_one _)

/-- Detaching returns the tables it detaches, whose addresses are not zero. -/
theorem detachEmpty_meets (drained : Drained arch root va 1 region)
    (there : Walk arch root region (pathOf va) 1 idx) :
    (detachEmpty arch root va).Meets region
      (fun retired after => ∃ gone, Detached arch root start va gone loose region after ∧
        [retired.1, retired.2].filter (fun pa => pa ≠ 0) = gone.map (· * frameSize))
      fun _ _ => False := by
  have exclusive := tree.exclusive grounded
  have nonzero (low frame : Nat) (lower : low < 4)
      (reached : Walk arch root region (pathOf va) low frame) : frame ≠ 0 :=
    tree.ne_zero grounded ((mem_below arch root region).mpr ⟨_, low, path, lower, reached⟩)
  obtain ⟨pdpt, third⟩ := there.passes (show 1 ≤ 3 by decide) (by decide)
  obtain ⟨pd, second⟩ := there.passes (show 1 ≤ 2 by decide) (by decide)
  have apart : pd ≠ idx := by
    rintro rfl
    exact absurd (second.depth_unique there path path exclusive) (by decide)
  refine (follow_meets tree path .here third).bind ?_
  rintro _ region ⟨rfl, rfl⟩
  refine (follow_meets tree path third second).bind ?_
  rintro _ region ⟨rfl, rfl⟩
  refine (follow_meets tree path second there).bind ?_
  rintro _ region ⟨rfl, rfl⟩
  refine .step (isEmpty_eq arch _ (show 0 < 3 by decide) idx) ?_
  have first : ∀ frame ∈ [idx], frame ≠ 0 :=
    forall_mem_singleton.mpr (nonzero 1 idx (by decide) there)
  by_cases empty : (tables arch).below region.memory 1 idx = []
  · rw [if_pos (decide_eq_true empty)]
    obtain ⟨once, walks, drainedOnce⟩ := tree.detach grounded path drained second there empty
    have looked := isEmpty_eq arch (region.put arch pd (pathOf va 2) 0) (show 1 < 3 by decide) pd
    refine .changes (.step looked ?_)
    have secondOnce := (walks _ path 2 pd).mpr ⟨second, apart⟩
    by_cases emptyToo : (tables arch).below (region.put arch pd (pathOf va 2) 0).memory 2 pd = []
    · rw [if_pos (decide_eq_true emptyToo)]
      have thirdOnce : Walk arch root (region.put arch pd (pathOf va 2) 0) (pathOf va) 3 pdpt := by
        refine (walks _ path 3 pdpt).mpr ⟨third, ?_⟩
        rintro rfl
        exact absurd (third.depth_unique there path path exclusive) (by decide)
      obtain ⟨twice, walksToo, drainedTwice⟩ :=
        once.detach grounded path drainedOnce thirdOnce secondOnce emptyToo
      refine .changes (.pure ⟨[idx, pd], ⟨twice.perm (List.Perm.swap ..), rfl, ?_, ?_, ?_⟩, ?_⟩)
      · intro along walk low table least most reached
        rcases drainedTwice along walk low table least most reached with ⟨_, -⟩ | leads
        · omega
        · exact .inr leads
      · intro along walk low found
        refine (walksToo along walk low found).trans ?_
        rw [walks along walk low found, and_assoc, ← not_or, mem_cons, mem_singleton]
      · rintro frame listed
        rcases mem_cons.mp listed with rfl | listed
        · exact ⟨1, by decide, by decide, there⟩
        · rw [mem_singleton.mp listed]
          exact ⟨2, by decide, by decide, second⟩
      · exact filter_addresses (forall_mem_cons.mpr ⟨nonzero 1 idx (by decide) there,
          forall_mem_singleton.mpr (nonzero 2 pd (by decide) second)⟩)
    · rw [if_neg (by rw [decide_eq_true_iff]; exact emptyToo)]
      refine .pure ⟨[idx], ⟨once, rfl, drainedOnce.full (by decide) path secondOnce emptyToo,
        ?_, ?_⟩, filter_addresses first⟩
      · intro along walk low found
        rw [walks along walk low found, mem_singleton]
      · intro frame listed
        rw [mem_singleton.mp listed]
        exact ⟨1, by decide, by decide, there⟩
  · rw [if_neg (by rw [decide_eq_true_iff]; exact empty)]
    refine .pure ⟨[], ⟨tree, rfl, drained.full (by decide) path there empty, ?_, ?_⟩, rfl⟩
    · intro _ _ _ _
      exact (and_iff_left not_mem_nil).symm
    · intro _ listed
      cases listed

end

end Tree

end Mmurtl.Stacks

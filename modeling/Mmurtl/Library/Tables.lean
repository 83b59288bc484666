/-
This file is the library of trees of tables in a memory. A table is an array of words; a word
that is present refers to a table of the next depth, or, at the last depth, to a frame of data.
Linking an absent word to an empty table adds this one frame to the tree, if no frame is in
the tree twice.
-/

import Mmurtl.Library.Memory

namespace Mmurtl.Tables

open List

/-- The format of tables: their size, the entries that are used at each depth, and what an entry
refers to. -/
structure Format where
  size : Nat
  indices : Nat → List Nat
  present : Nat → Bool
  frame : Nat → Nat
  distinct : ∀ depth, (indices depth).Nodup
  inside : ∀ depth, ∀ index ∈ indices depth, 8 * index + 8 ≤ size

namespace Format

variable (format : Format)

/-- The address of an entry. -/
def place (table index : Nat) : Nat := table * format.size + 8 * index

def entry (memory : Memory) (table index : Nat) : Nat := memory.readWord (format.place table index)

/-- The frames below a table, each after those below it. -/
def below (memory : Memory) : Nat → Nat → List Nat
  | 0, _ => []
  | depth + 1, table => (format.indices (depth + 1)).flatMap fun index =>
      if format.present (format.entry memory table index) then
        below memory depth (format.frame (format.entry memory table index)) ++
          [format.frame (format.entry memory table index)]
      else []

/-- The tables of a tree: its frames without those of data. -/
def tables (memory : Memory) : Nat → Nat → List Nat
  | 0, _ => []
  | depth + 1, table => table :: (format.indices (depth + 1)).flatMap fun index =>
      if format.present (format.entry memory table index) then
        tables memory depth (format.frame (format.entry memory table index))
      else []

/-- The frames of one entry of a table. -/
def branch (memory : Memory) (depth table index : Nat) : List Nat :=
  if format.present (format.entry memory table index) then
    format.below memory depth (format.frame (format.entry memory table index)) ++
      [format.frame (format.entry memory table index)]
  else []

/-- Two memories agree on a frame. -/
def AgreeAt (memory other : Memory) (frame : Nat) : Prop :=
  ∀ byte, byte / format.size = frame → other byte = memory byte

/-- A path through entries that are used. -/
def Along (path : Nat → Nat) : Prop := ∀ depth, path (depth + 1) ∈ format.indices (depth + 1)

/-- A walk along a path, from one table down to another. -/
inductive Reaches (memory : Memory) (path : Nat → Nat) (depth table : Nat) : Nat → Nat → Prop
  | here : Reaches memory path depth table depth table
  | down {top root : Nat} (present : format.present (format.entry memory root (path (top + 1))))
      (rest : Reaches memory path depth table top
        (format.frame (format.entry memory root (path (top + 1))))) :
      Reaches memory path depth table (top + 1) root

variable {format} {memory other : Memory} {path : Nat → Nat} {depth table top root index : Nat}

theorem below_succ : format.below memory (depth + 1) table =
    (format.indices (depth + 1)).flatMap (format.branch memory depth table) := rfl

theorem branch_of_present (present : format.present (format.entry memory table index)) :
    format.branch memory depth table index =
      format.below memory depth (format.frame (format.entry memory table index)) ++
        [format.frame (format.entry memory table index)] := if_pos present

theorem branch_of_absent (absent : format.present (format.entry memory table index) = false) :
    format.branch memory depth table index = [] := by
  unfold branch
  rw [absent]
  rfl

theorem branch_subset (used : index ∈ format.indices (depth + 1)) :
    format.branch memory depth table index ⊆ format.below memory (depth + 1) table :=
  fun _ listed => mem_flatMap.mpr ⟨index, used, listed⟩

/-! ### Frames and tables -/

variable {frame : Nat}

theorem mem_branch_iff (present : format.present (format.entry memory table index)) :
    frame ∈ format.branch memory depth table index ↔
      frame = format.frame (format.entry memory table index) ∨
        frame ∈ format.below memory depth (format.frame (format.entry memory table index)) := by
  rw [branch_of_present present, mem_append, mem_singleton, or_comm]

/-- The tables of a tree are frames of it. -/
theorem mem_of_mem_tables (listed : frame ∈ format.tables memory depth table) :
    frame = table ∨ frame ∈ format.below memory depth table := by
  induction depth generalizing table with
  | zero => cases listed
  | succ depth ih =>
    rcases mem_cons.mp listed with first | rest
    · exact Or.inl first
    · obtain ⟨_, used, inside⟩ := mem_flatMap.mp rest
      split at inside
      case isFalse => cases inside
      case isTrue present =>
        exact Or.inr (branch_subset used ((mem_branch_iff present).mpr (ih inside)))

theorem entry_congr (used : index ∈ format.indices depth)
    (agree : format.AgreeAt memory other table) :
    format.entry other table index = format.entry memory table index := by
  have room := format.inside depth index used
  refine Memory.readWord_congr fun byte low high => agree byte ?_
  unfold place at low high
  exact Nat.div_eq_of_lt_le (by omega) (by rw [Nat.succ_mul]; omega)

/-- The frames of a tree depend on its tables only. -/
theorem below_congr
    (agree : ∀ frame ∈ format.tables memory depth table, format.AgreeAt memory other frame) :
    format.below other depth table = format.below memory depth table := by
  induction depth generalizing table with
  | zero => rfl
  | succ depth ih =>
    rw [below_succ, below_succ]
    refine flatMap_congr fun index used => ?_
    have same := entry_congr used (agree table mem_cons_self)
    unfold branch
    rw [same]
    split
    case isFalse => rfl
    case isTrue present =>
      rw [ih fun frame listed => agree frame ?_]
      refine mem_cons_of_mem _ (mem_flatMap.mpr ⟨index, used, ?_⟩)
      rw [if_pos present]
      exact listed

/-! ### Trees without shared frames -/

section

variable (distinct : (format.below memory (depth + 1) table).Nodup)
  (used : index ∈ format.indices (depth + 1))
include distinct used

theorem branch_nodup : (format.branch memory depth table index).Nodup :=
  (nodup_flatMap.mp distinct).1 index used

/-- The frames of two entries are different. -/
theorem branch_disjoint {sibling : Nat} (usedToo : sibling ∈ format.indices (depth + 1))
    (different : sibling ≠ index) (listed : frame ∈ format.branch memory depth table index) :
    frame ∉ format.branch memory depth table sibling := by
  rw [below_succ] at distinct
  have apart := (nodup_flatMap.mp distinct).2
  have symmetric : Std.Symm (Function.onFun List.Disjoint (format.branch memory depth table)) :=
    ⟨fun _ _ disjoint _ inSecond inFirst => disjoint inFirst inSecond⟩
  exact fun wrong => (apart.forall usedToo used different) wrong listed

end

/-- A tree in which no frame occurs twice, its root included. -/
def Exclusive (format : Format) (memory : Memory) (depth root : Nat) : Prop :=
  (format.below memory depth root ++ [root]).Nodup

theorem Exclusive.root_not_mem (exclusive : Exclusive format memory depth root) :
    root ∉ format.below memory depth root :=
  fun listed => (disjoint_of_nodup_append exclusive) listed (mem_singleton.mpr rfl)

theorem Exclusive.branch (exclusive : Exclusive format memory (depth + 1) root)
    (used : index ∈ format.indices (depth + 1))
    (present : format.present (format.entry memory root index)) :
    Exclusive format memory depth (format.frame (format.entry memory root index)) := by
  have distinct := branch_nodup (List.Nodup.of_append_left exclusive) used
  rwa [branch_of_present present] at distinct

/-- The tables below an entry are frames of it. -/
theorem mem_branch_of_mem_tables (present : format.present (format.entry memory table index))
    (listed : frame ∈ format.tables memory depth (format.frame (format.entry memory table index))) :
    frame ∈ format.branch memory depth table index :=
  (mem_branch_iff present).mpr (mem_of_mem_tables listed)

/-- What is below an entry is unchanged, if no table below it changes. -/
theorem branch_congr (same : format.entry other table index = format.entry memory table index)
    (agree : ∀ frame ∈ format.branch memory depth table index, format.AgreeAt memory other frame) :
    format.branch other depth table index = format.branch memory depth table index := by
  by_cases present : format.present (format.entry memory table index)
  · have presentToo := present
    rw [← same] at presentToo
    rw [branch_of_present present, branch_of_present presentToo, same,
      below_congr fun frame listed => agree frame (mem_branch_of_mem_tables present listed)]
  · have absent : format.present (format.entry memory table index) = false :=
      (Bool.not_eq_true _).mp present
    have absentToo := absent
    rw [← same] at absentToo
    rw [branch_of_absent absent, branch_of_absent absentToo]

/-! ### Walks -/

/-- One step more of a walk. -/
theorem Reaches.extend (reaches : format.Reaches memory path (depth + 1) table top root)
    (present : format.present (format.entry memory table (path (depth + 1)))) :
    format.Reaches memory path depth (format.frame (format.entry memory table (path (depth + 1))))
      top root := by
  induction reaches with
  | here => exact .down present .here
  | down presentAbove rest ih => exact .down presentAbove ih

/-- A walk ends at a frame of the tree. -/
theorem Reaches.mem (reaches : format.Reaches memory path depth table top root)
    (walks : format.Along path) :
    table = root ∨ table ∈ format.below memory top root := by
  induction reaches with
  | here => exact Or.inl rfl
  | @down top root present rest ih =>
    exact Or.inr (branch_subset (walks top) ((mem_branch_iff present).mpr ih))

/-- The frames that a walk passes below an entry are frames of this entry. -/
theorem Reaches.mem_branch (reaches : format.Reaches memory path depth table top
      (format.frame (format.entry memory root index)))
    (walks : format.Along path) (present : format.present (format.entry memory root index)) :
    table ∈ format.branch memory top root index :=
  (mem_branch_iff present).mpr (reaches.mem walks)

/-- A frame that the last entry of a walk refers to. -/
theorem Reaches.frame_mem (reaches : format.Reaches memory path (depth + 1) table top root)
    (walks : format.Along path)
    (present : format.present (format.entry memory table (path (depth + 1)))) :
    format.frame (format.entry memory table (path (depth + 1))) ∈ format.below memory top root := by
  induction reaches with
  | here => exact branch_subset (walks depth) ((mem_branch_iff present).mpr (Or.inl rfl))
  | @down top root presentAbove rest ih =>
    exact branch_subset (walks top) ((mem_branch_iff presentAbove).mpr (Or.inr ih))

/-- A frame of data is no table. -/
theorem Reaches.data_not_table (reaches : format.Reaches memory path 1 table top root)
    (walks : format.Along path) (exclusive : Exclusive format memory top root)
    (present : format.present (format.entry memory table (path 1))) :
    format.frame (format.entry memory table (path 1)) ∉ format.tables memory top root := by
  induction reaches with
  | here =>
    intro listed
    rcases mem_cons.mp listed with same | deeper
    · refine exclusive.root_not_mem ?_
      have inside := Reaches.frame_mem .here walks present
      rwa [same] at inside
    · obtain ⟨index, used, inside⟩ := mem_flatMap.mp deeper
      split at inside <;> cases inside
  | @down top root presentAbove rest ih =>
    have deep := rest.frame_mem walks present
    have inBranch : format.frame (format.entry memory table (path 1)) ∈
        format.branch memory top root (path (top + 1)) :=
      (mem_branch_iff presentAbove).mpr (Or.inr deep)
    intro listed
    rcases mem_cons.mp listed with same | deeper
    · refine exclusive.root_not_mem ?_
      rw [same] at inBranch
      exact branch_subset (walks top) inBranch
    · obtain ⟨index, used, inside⟩ := mem_flatMap.mp deeper
      split at inside
      case isFalse => cases inside
      case isTrue presentHere =>
        by_cases same : index = path (top + 1)
        · subst same
          exact ih (exclusive.branch (walks top) presentAbove) inside
        · exact branch_disjoint (List.Nodup.of_append_left exclusive) (walks top) used same inBranch
            (mem_branch_of_mem_tables presentHere inside)

/-- A walk depends on the tables only. -/
theorem Reaches.congr (reaches : format.Reaches memory path depth table top root)
    (walks : format.Along path)
    (agree : ∀ frame ∈ format.tables memory top root, format.AgreeAt memory other frame) :
    format.Reaches other path depth table top root := by
  induction reaches with
  | here => exact .here
  | @down top root present rest ih =>
    have same := entry_congr (walks top) (agree root mem_cons_self)
    have presentToo := present
    rw [← same] at presentToo
    refine .down presentToo ?_
    rw [same]
    refine ih fun frame listed => agree frame (mem_cons_of_mem _ ?_)
    refine mem_flatMap.mpr ⟨path (top + 1), walks top, ?_⟩
    rw [if_pos present]
    exact listed

/-- Nothing is below a table of zeros. -/
theorem below_of_zero (absent : format.present 0 = false)
    (zero : memory.ZeroOn (table * format.size) format.size) :
    format.below memory depth table = [] := by
  cases depth with
  | zero => rfl
  | succ depth =>
    refine flatMap_eq_nil_iff.mpr fun index used => ?_
    have room := format.inside (depth + 1) index used
    have word : format.entry memory table index = 0 :=
      Memory.ZeroOn.readWord fun byte low high => by
        unfold place at low high
        exact zero byte (by omega) (by omega)
    rw [word, absent]
    rfl

/-! ### Writing an entry -/

/-- Replacing the frames of one item of a list. -/
theorem flatMap_perm_append {items : List Nat} {before after : Nat → List Nat} {item : Nat}
    (distinct : items.Nodup) (listed : item ∈ items)
    (others : ∀ other ∈ items, other ≠ item → after other = before other) :
    ∃ rest, (items.flatMap before).Perm (before item ++ rest) ∧
      (items.flatMap after).Perm (after item ++ rest) := by
  have first := perm_cons_erase listed
  refine ⟨(items.erase item).flatMap before, first.flatMap_right before, ?_⟩
  have same : (items.erase item).flatMap before = (items.erase item).flatMap after := by
    refine flatMap_congr fun other inside => (others other ?_ ?_).symm
    · exact mem_of_mem_erase inside
    · exact ((List.Nodup.mem_erase_iff distinct).mp inside).1
  rw [same]
  exact first.flatMap_right after

section Write

variable {word used : Nat}

/-- A write to an entry of a table changes no other frame. -/
theorem agreeAt_writeWord (room : index ∈ format.indices used) (different : frame ≠ table)
    (word : Nat) :
    format.AgreeAt memory (memory.writeWord (format.place table index) word) frame := by
  intro _ inFrame
  refine Memory.writeWord_of_outside _ _ ?_
  by_contra inside
  have room := format.inside used index room
  unfold place at inside
  refine different (inFrame ▸ Nat.div_eq_of_lt_le (by omega) (by rw [Nat.succ_mul]; omega))

/-- A write to an entry of a table changes no other entry. -/
theorem entry_writeWord_of_ne {sibling : Nat} (different : sibling ≠ index) :
    format.entry (memory.writeWord (format.place table index) word) table sibling =
      format.entry memory table sibling := by
  refine Memory.readWord_congr fun byte low high => Memory.writeWord_of_outside _ _ ?_
  unfold place at *
  omega

/-- Another memory differs from this one at most in one entry of a table. -/
structure DiffersAt (format : Format) (memory : Memory) (table index : Nat) (other : Memory) :
    Prop where
  kept : ∀ frame, frame ≠ table → format.AgreeAt memory other frame
  siblings : ∀ sibling, sibling ≠ index →
    format.entry other table sibling = format.entry memory table sibling

/-- Another memory is this one with an entry of a table written. -/
structure Written (format : Format) (memory : Memory) (table index word : Nat) (other : Memory) :
    Prop extends DiffersAt format memory table index other where
  written : format.entry other table index = word

theorem written_writeWord (room : index ∈ format.indices used) (fits : word < 2 ^ 64) :
    Written format memory table index word (memory.writeWord (format.place table index) word) :=
  ⟨⟨fun _ different => agreeAt_writeWord room different word, fun _ => entry_writeWord_of_ne⟩,
    Memory.readWord_writeWord _ _ fits⟩

/-- The entries of the other tables are not changed. -/
theorem DiffersAt.entry {at_ : Nat} (differs : DiffersAt format memory table at_ other)
    (room : index ∈ format.indices used) (different : root ≠ table) :
    format.entry other root index = format.entry memory root index :=
  entry_congr room (differs.kept root different)

/-- Nothing is below another table, if nothing was. -/
theorem DiffersAt.below_eq_nil (differs : DiffersAt format memory table index other)
    (away : frame ≠ table) (empty : format.below memory depth frame = []) :
    format.below other depth frame = [] := by
  rw [below_congr fun inner listed => differs.kept inner ?_, empty]
  rcases mem_of_mem_tables listed with rfl | deeper
  · exact away
  · rw [empty] at deeper
    cases deeper

/-- A frame outside a tree is not what a walk ends at. -/
theorem Reaches.ne_of_new (reaches : format.Reaches memory path depth table top root)
    (walks : format.Along path) (new : frame ≠ root ∧ frame ∉ format.below memory top root) :
    frame ≠ table := by
  rintro rfl
  exact (reaches.mem walks).elim new.1 new.2

/-- A walk to a table passes other tables only. -/
theorem Reaches.ne_root (rest : format.Reaches memory path depth table top
      (format.frame (format.entry memory root (path (top + 1))))) (walks : format.Along path)
    (present : format.present (format.entry memory root (path (top + 1))))
    (exclusive : Exclusive format memory (top + 1) root) :
    table ∈ format.branch memory top root (path (top + 1)) ∧ root ≠ table := by
  have inBranch := rest.mem_branch walks present
  refine ⟨inBranch, ?_⟩
  rintro rfl
  exact exclusive.root_not_mem (branch_subset (walks top) inBranch)

section

variable (reaches : format.Reaches memory path (depth + 1) table top root)
  (walks : format.Along path) (exclusive : Exclusive format memory top root)
include reaches walks exclusive

/-- A change of the entry at the end of a walk changes the frames of this entry only, and the walk
still ends there. -/
theorem Reaches.below_of_differsAt
    (differs : DiffersAt format memory table (path (depth + 1)) other) :
    format.Reaches other path (depth + 1) table top root ∧
      ∃ rest, (format.below memory top root).Perm
          (format.branch memory depth table (path (depth + 1)) ++ rest) ∧
        (format.below other top root).Perm
          (format.branch other depth table (path (depth + 1)) ++ rest) := by
  induction reaches with
  | here =>
    refine ⟨.here, flatMap_perm_append (format.distinct _) (walks depth)
      fun sibling used different =>
      branch_congr (differs.siblings sibling different) fun inner listed => differs.kept inner ?_⟩
    rintro rfl
    exact exclusive.root_not_mem (branch_subset used listed)
  | @down top root present rest ih =>
    obtain ⟨inBranch, notRoot⟩ := rest.ne_root walks present exclusive
    have same := differs.entry (walks top) notRoot
    have presentToo := present
    rw [← same] at presentToo
    obtain ⟨reaches, others, before, after⟩ :=
      ih (exclusive.branch (walks top) present)
    have siblings : ∀ sibling ∈ format.indices (top + 1), sibling ≠ path (top + 1) →
        format.branch other top root sibling = format.branch memory top root sibling := by
      refine fun sibling used different => branch_congr (differs.entry used notRoot)
        fun inner listed => differs.kept inner ?_
      rintro rfl
      exact branch_disjoint (List.Nodup.of_append_left exclusive) (walks top) used different
        inBranch listed
    obtain ⟨outside, beforeAll, afterAll⟩ :=
      flatMap_perm_append (format.distinct _) (walks top) siblings
    rw [branch_of_present present] at beforeAll
    rw [branch_of_present presentToo, same] at afterAll
    rw [← same] at reaches
    refine ⟨.down presentToo reaches, others ++
      [format.frame (format.entry memory root (path (top + 1)))] ++ outside, ?_, ?_⟩
    · refine beforeAll.trans ?_
      rw [← append_assoc, ← append_assoc]
      exact (before.append_right _).append_right _
    · refine afterAll.trans ?_
      rw [← append_assoc, ← append_assoc]
      exact (after.append_right _).append_right _

/-- Linking an absent entry at the end of a walk to an empty table adds this table, and the walk
still ends there. -/
theorem Reaches.link (written : Written format memory table (path (depth + 1)) word other)
    (absent : format.present (format.entry memory table (path (depth + 1))) = false)
    (new : frame ≠ root ∧ frame ∉ format.below memory top root)
    (empty : format.below memory depth frame = []) (present : format.present word)
    (refers : format.frame word = frame) :
    (format.below other top root).Perm (frame :: format.below memory top root) ∧
      format.Reaches other path (depth + 1) table top root := by
  obtain ⟨stays, _, before, after⟩ :=
    reaches.below_of_differsAt walks exclusive written.toDiffersAt
  refine ⟨after.trans ?_, stays⟩
  rw [branch_of_absent absent, nil_append] at before
  rw [branch_of_present (by rw [written.written]; exact present), written.written, refers,
    written.below_eq_nil (reaches.ne_of_new walks new) empty]
  exact before.symm.cons frame

end

end Write

end Format

end Mmurtl.Tables

/-
This file is the library of walks in trees of tables: a walk along a path is determined by the
path, different paths lead to different frames if no frame is in the tree twice, and a change of
the entry at the end of a walk changes only the walks that go through this entry.
-/

import Mmurtl.Library.Tables

namespace Mmurtl.Tables.Format

open List

variable {format : Format} {memory other : Memory} {path along : Nat → Nat}
  {depth low table found top root index : Nat}

/-! ### One step of a walk -/

theorem Reaches.le (reaches : format.Reaches memory path depth table top root) : depth ≤ top := by
  induction reaches with
  | here => exact Nat.le_refl _
  | down _ _ ih => exact Nat.le_succ_of_le ih

theorem reaches_self : format.Reaches memory path top found top root ↔ found = root := by
  constructor
  · intro reaches
    cases reaches with
    | here => rfl
    | down _ rest => exact absurd rest.le (Nat.not_succ_le_self _)
  · rintro rfl
    exact .here

/-- A walk that is not at its end goes on through the entry of its path. -/
theorem reaches_succ (more : low ≤ top) :
    format.Reaches memory path low found (top + 1) root ↔
      format.present (format.entry memory root (path (top + 1))) = true ∧
        format.Reaches memory path low found top
          (format.frame (format.entry memory root (path (top + 1)))) := by
  constructor
  · intro reaches
    cases reaches with
    | here => omega
    | down present rest => exact ⟨present, rest⟩
  · rintro ⟨present, rest⟩
    exact .down present rest

section

variable (reaches : format.Reaches memory path depth table top root)
include reaches

/-- A walk depends on the part of the path it has passed. -/
theorem Reaches.path_congr
    (same : ∀ level, depth < level → level ≤ top → along level = path level) :
    format.Reaches memory along depth table top root := by
  induction reaches with
  | here => exact .here
  | @down top root present rest ih =>
    have here := same (top + 1) (Nat.lt_succ_of_le rest.le) (Nat.le_refl _)
    rw [← here] at present rest ih
    exact .down present (ih fun level later before =>
      same level later (Nat.le_succ_of_le before))

/-- A walk goes on from where it has been. -/
theorem Reaches.through (further : low ≤ depth) : format.Reaches memory path low found top root ↔
      format.Reaches memory path low found depth table := by
  induction reaches with
  | here => exact Iff.rfl
  | down present rest ih =>
    rw [reaches_succ (Nat.le_trans further rest.le), ih]
    exact and_iff_right present

/-- A walk is determined by its path. -/
theorem Reaches.unique (again : format.Reaches memory path depth found top root) : found = table :=
  reaches_self.mp ((reaches.through (Nat.le_refl _)).mp again)

/-- The last step of a walk. -/
theorem Reaches.last (deeper : depth < top) :
    ∃ above, format.Reaches memory path (depth + 1) above top root ∧
      format.present (format.entry memory above (path (depth + 1))) = true ∧
      format.frame (format.entry memory above (path (depth + 1))) = table := by
  induction reaches with
  | here => exact absurd deeper (Nat.lt_irrefl _)
  | @down top root present rest ih =>
    rcases Nat.lt_or_eq_of_le rest.le with further | rfl
    · obtain ⟨above, before, step⟩ := ih further
      exact ⟨above, .down present before, step⟩
    · exact ⟨root, .here, present, (reaches_self.mp rest).symm⟩

/-- A walk passes every depth above its end. -/
theorem Reaches.passes {level : Nat} (after : depth ≤ level) (before : level ≤ top) :
    ∃ middle, format.Reaches memory path level middle top root := by
  induction after with
  | refl => exact ⟨table, reaches⟩
  | @step level _ ih =>
    obtain ⟨_, passed⟩ := ih (Nat.le_of_succ_le before)
    obtain ⟨above, earlier, -⟩ := passed.last before
    exact ⟨above, earlier⟩

end

/-- Nothing is below a table if no entry of it is present. -/
theorem below_eq_nil_iff : format.below memory (depth + 1) table = [] ↔
    ∀ index ∈ format.indices (depth + 1),
      format.present (format.entry memory table index) = false := by
  rw [below_succ, flatMap_eq_nil_iff]
  refine forall₂_congr fun index _ => ?_
  by_cases present : format.present (format.entry memory table index)
  · rw [branch_of_present present, present]
    simp
  · rw [branch_of_absent ((Bool.not_eq_true _).mp present)]
    simp [present]

/-- From a table with nothing below it a walk leads nowhere. -/
theorem Reaches.of_empty (reaches : format.Reaches memory path low found depth table)
    (walks : format.Along path)
    (empty : format.below memory depth table = []) : low = depth ∧ found = table := by
  cases reaches with
  | here => exact ⟨rfl, rfl⟩
  | @down depth table present rest =>
    have inside := branch_subset (walks depth) ((mem_branch_iff present).mpr (Or.inl rfl))
    rw [empty] at inside
    cases inside

/-! ### Walks in trees without shared frames -/

/-- Different paths lead to different frames. -/
theorem Reaches.injective (reaches : format.Reaches memory path depth table top root)
    (again : format.Reaches memory along depth table top root) (walks : format.Along path)
    (walksAlong : format.Along along)
    (exclusive : Exclusive format memory top root) {level : Nat} (after : depth < level)
    (before : level ≤ top) : along level = path level := by
  induction reaches with
  | here => omega
  | @down top root present rest ih =>
    obtain ⟨presentAlong, restAlong⟩ := (reaches_succ rest.le).mp again
    have same : along (top + 1) = path (top + 1) := by
      by_contra different
      exact branch_disjoint (List.Nodup.of_append_left exclusive) (walks top) (walksAlong top)
        different (rest.mem_branch walks present) (restAlong.mem_branch walksAlong presentAlong)
    rcases Nat.lt_or_ge top level with _ | earlier
    · obtain rfl : level = top + 1 := by omega
      exact same
    · rw [same] at restAlong
      exact ih restAlong (exclusive.branch (walks top) present) earlier

/-- A frame is reached at one depth only. -/
theorem Reaches.depth_unique (reaches : format.Reaches memory path depth table top root)
    (again : format.Reaches memory along low table top root) (walks : format.Along path)
    (walksAlong : format.Along along)
    (exclusive : Exclusive format memory top root) : low = depth := by
  induction reaches with
  | here =>
    cases again with
    | here => rfl
    | @down top _ present rest =>
      exact absurd (branch_subset (walksAlong top) (rest.mem_branch walksAlong present))
        exclusive.root_not_mem
  | @down top root present rest ih =>
    have inside := rest.mem_branch walks present
    cases again with
    | here => exact absurd (branch_subset (walks top) inside) exclusive.root_not_mem
    | down presentAlong restAlong =>
      have same : along (top + 1) = path (top + 1) := by
        by_contra different
        exact branch_disjoint (List.Nodup.of_append_left exclusive) (walks top) (walksAlong top)
          different inside (restAlong.mem_branch walksAlong presentAlong)
      rw [same] at restAlong
      exact ih restAlong (exclusive.branch (walks top) present)

/-- The frames of a tree are what walks lead to. -/
theorem mem_below_iff {frame : Nat} (some_ : ∀ depth, format.indices (depth + 1) ≠ []) :
    frame ∈ format.below memory top root ↔ ∃ path low, format.Along path ∧ low < top ∧
        format.Reaches memory path low frame top root := by
  constructor
  · intro inside
    induction top generalizing root with
    | zero => cases inside
    | succ top ih =>
      obtain ⟨index, used, listed⟩ := mem_flatMap.mp inside
      split at listed
      case isFalse => cases listed
      case isTrue present =>
        rcases mem_append.mp listed with deeper | here
        · obtain ⟨path, low, walks, before, reaches⟩ := ih deeper
          refine ⟨Function.update path (top + 1) index, low, fun depth => ?_, by omega, ?_⟩
          · by_cases same : depth + 1 = top + 1
            · rw [same, Function.update_self]
              exact used
            · rw [Function.update_of_ne same]
              exact walks depth
          · refine .down (by rw [Function.update_self]; exact present) ?_
            rw [Function.update_self]
            exact reaches.path_congr fun level _ below => Function.update_of_ne (by omega) ..
        · rw [mem_singleton] at here
          choose first member using fun depth => exists_mem_of_ne_nil _ (some_ depth)
          refine ⟨Function.update (fun level => first (level - 1)) (top + 1) index, top,
            fun depth => ?_, Nat.lt_succ_self _, ?_⟩
          · by_cases same : depth + 1 = top + 1
            · rw [same, Function.update_self]
              exact used
            · rw [Function.update_of_ne same]
              exact member depth
          · refine .down (by rw [Function.update_self]; exact present) ?_
            rw [Function.update_self, here]
            exact .here
  · rintro ⟨_, _, walks, _, reaches⟩
    cases reaches with
    | here => omega
    | down present rest => exact branch_subset (walks _) (rest.mem_branch walks present)

/-! ### Walks beside a change -/

/-- A walk that does not end at data ends at a table. -/
theorem Reaches.mem_tables (reaches : format.Reaches memory path (depth + 1) table top root)
    (walks : format.Along path) :
    table ∈ format.tables memory top root := by
  induction reaches with
  | here => exact mem_cons_self
  | @down top root present rest ih =>
    refine mem_cons_of_mem _ (mem_flatMap.mpr ⟨path (top + 1), walks top, ?_⟩)
    rw [if_pos present]
    exact ih

/-- The tables of a tree depend on themselves only. -/
theorem tables_congr
    (agree : ∀ frame ∈ format.tables memory top root, format.AgreeAt memory other frame) :
    format.tables other top root = format.tables memory top root := by
  induction top generalizing root with
  | zero => rfl
  | succ top ih =>
    refine congrArg (root :: ·) (flatMap_congr fun index used => ?_)
    rw [entry_congr used (agree root mem_cons_self)]
    split
    case isFalse => rfl
    case isTrue present =>
      refine ih fun frame listed => agree frame ?_
      refine mem_cons_of_mem _ (mem_flatMap.mpr ⟨index, used, ?_⟩)
      rw [if_pos present]
      exact listed

/-- The walks below an entry are unchanged, if no table below it changes. -/
theorem reaches_congr (walks : format.Along path)
    (agree : ∀ frame ∈ format.tables memory top root, format.AgreeAt memory other frame) :
    format.Reaches other path low found top root ↔
      format.Reaches memory path low found top root := by
  refine ⟨fun reaches => reaches.congr walks fun frame listed byte inside => ?_, fun reaches =>
    reaches.congr walks agree⟩
  rw [tables_congr agree] at listed
  exact (agree frame listed byte inside).symm

/-- The walks through another entry of a table are unchanged. -/
theorem reaches_of_other_branch (walks : format.Along along)
    (differs : DiffersAt format memory table index other)
    (same : format.entry other root (along (top + 1)) = format.entry memory root (along (top + 1)))
    (away : table ∉ format.branch memory top root (along (top + 1))) (further : low ≤ top) :
    format.Reaches other along low found (top + 1) root ↔
      format.Reaches memory along low found (top + 1) root := by
  rw [reaches_succ further, reaches_succ further, same]
  refine and_congr_right fun present => reaches_congr walks fun frame listed =>
    differs.kept frame ?_
  rintro rfl
  exact away (mem_branch_of_mem_tables present listed)

/-- A change of the entry at the end of a walk changes no walk that ends above it or leaves its
path before it. -/
theorem Reaches.beside_iff (reaches : format.Reaches memory path (depth + 1) table top root)
    (walks : format.Along path) (walksAlong : format.Along along)
    (exclusive : Exclusive format memory top root)
    (differs : DiffersAt format memory table (path (depth + 1)) other)
    (beside : depth < low ∨ ∃ level, depth < level ∧ level ≤ top ∧ along level ≠ path level) :
    format.Reaches other along low found top root ↔
      format.Reaches memory along low found top root := by
  induction reaches with
  | here =>
    rcases Nat.lt_trichotomy low (depth + 1) with further | rfl | outside
    · obtain ⟨level, after, before, off⟩ := beside.resolve_left (by omega)
      obtain rfl : level = depth + 1 := by omega
      refine reaches_of_other_branch walksAlong differs (differs.siblings _ off) ?_
        (Nat.le_of_lt_succ further)
      exact fun inside => exclusive.root_not_mem (branch_subset (walksAlong depth) inside)
    · rw [reaches_self, reaches_self]
    · exact iff_of_false (fun reaches => absurd reaches.le (by omega))
        fun reaches => absurd reaches.le (by omega)
  | @down top root present rest ih =>
    obtain ⟨inBranch, notRoot⟩ := rest.ne_root walks present exclusive
    have same := differs.entry (walksAlong top) notRoot
    rcases Nat.lt_trichotomy low (top + 1) with further | rfl | _
    · by_cases stays : along (top + 1) = path (top + 1)
      · rw [reaches_succ (Nat.le_of_lt_succ further),
          reaches_succ (Nat.le_of_lt_succ further), same,
          stays]
        refine and_congr_right fun _ => ih (exclusive.branch (walks top) present) ?_
        refine beside.imp_right ?_
        rintro ⟨level, after, _, off⟩
        refine ⟨level, after, ?_, off⟩
        by_contra beyond
        obtain rfl : level = top + 1 := by omega
        exact off stays
      · refine reaches_of_other_branch walksAlong differs same ?_ (Nat.le_of_lt_succ further)
        exact branch_disjoint (List.Nodup.of_append_left exclusive) (walks top) (walksAlong top)
          stays inBranch
    · rw [reaches_self, reaches_self]
    · exact iff_of_false (fun reaches => absurd reaches.le (by omega))
        fun reaches => absurd reaches.le (by omega)

/-- A walk through the entry at the end of another walk. -/
theorem Reaches.on_iff (reaches : format.Reaches memory path (depth + 1) table top root)
    (on : ∀ level, depth < level → level ≤ top → along level = path level) (further : low ≤ depth) :
    format.Reaches memory along low found top root ↔
      format.present (format.entry memory table (path (depth + 1))) = true ∧
        format.Reaches memory along low found depth
          (format.frame (format.entry memory table (path (depth + 1)))) := by
  have same := on (depth + 1) (Nat.lt_succ_self _) reaches.le
  have passes := reaches.path_congr fun level later before => on level (by omega) before
  rw [passes.through (Nat.le_succ_of_le further), reaches_succ further, same]

/-! ### Linking and unlinking -/

/-- A path that passes the same entries as another, above a depth. -/
def SameAbove (depth top : Nat) (path along : Nat → Nat) : Prop :=
  ∀ level, depth < level → level ≤ top → along level = path level

theorem SameAbove.symm (same : SameAbove depth top path along) : SameAbove depth top along path :=
  fun level after before => (same level after before).symm

section Link

variable {word frame : Nat} (reaches : format.Reaches memory path (depth + 1) table top root)
  (walks : format.Along path) (walksAlong : format.Along along)
  (exclusive : Exclusive format memory top root)
  (written : Written format memory table (path (depth + 1)) word other)

include reaches walks exclusive written

/-- Unlinking an entry that refers to an empty table takes this table out of the tree. -/
theorem Reaches.unlink
    (present : format.present (format.entry memory table (path (depth + 1))) = true)
    (refers : format.frame (format.entry memory table (path (depth + 1))) = frame)
    (empty : format.below memory depth frame = []) (absent : format.present word = false) :
    (format.below memory top root).Perm (frame :: format.below other top root) ∧
      format.Reaches other path (depth + 1) table top root := by
  obtain ⟨stays, _, before, after⟩ :=
    reaches.below_of_differsAt walks exclusive written.toDiffersAt
  rw [branch_of_present present, refers, empty, nil_append] at before
  rw [branch_of_absent (by rw [written.written]; exact absent), nil_append] at after
  exact ⟨before.trans (after.symm.cons frame), stays⟩

include walksAlong

/-- The walks through the entry at the end of a walk after it was written. -/
theorem Reaches.write_cases (low found : Nat) :
    (¬(low ≤ depth ∧ SameAbove depth top path along) ∧
      (format.Reaches other along low found top root ↔
        format.Reaches memory along low found top root)) ∨
      low ≤ depth ∧ SameAbove depth top path along ∧
        (format.Reaches other along low found top root ↔ format.present word = true ∧
          format.Reaches other along low found depth (format.frame word)) := by
  by_cases beside : depth < low ∨ ∃ level, depth < level ∧ level ≤ top ∧ along level ≠ path level
  · refine .inl ⟨?_, reaches.beside_iff walks walksAlong exclusive written.toDiffersAt beside⟩
    rintro ⟨further, on⟩
    rcases beside with above | ⟨level, after, before, off⟩
    · omega
    · exact off (on level after before)
  · have on : SameAbove depth top path along := fun level after before => by
      by_contra off
      exact beside (.inr ⟨level, after, before, off⟩)
    have further : low ≤ depth := by
      by_contra above
      exact beside (.inl (by omega))
    have stays := (reaches.below_of_differsAt walks exclusive written.toDiffersAt).1
    refine .inr ⟨further, on, ?_⟩
    rw [stays.on_iff on further, written.written]

/-- Linking an absent entry to an empty table adds the walk to this table. -/
theorem Reaches.link_iff
    (absent : format.present (format.entry memory table (path (depth + 1))) = false)
    (new : frame ≠ root ∧ frame ∉ format.below memory top root)
    (empty : format.below memory depth frame = []) (present : format.present word)
    (refers : format.frame word = frame) :
    format.Reaches other along low found top root ↔ format.Reaches memory along low found top root ∨
        low = depth ∧ found = frame ∧ SameAbove depth top path along := by
  rcases reaches.write_cases walks walksAlong exclusive written low found with
    ⟨beside, same⟩ | ⟨further, on, same⟩
  · refine same.trans ⟨.inl, fun either => either.resolve_right ?_⟩
    rintro ⟨rfl, _, on⟩
    exact beside ⟨Nat.le_refl _, on⟩
  · rw [same, refers]
    constructor
    · rintro ⟨_, rest⟩
      obtain ⟨rfl, rfl⟩ := rest.of_empty walksAlong
        (written.below_eq_nil (reaches.ne_of_new walks new) empty)
      exact .inr ⟨rfl, rfl, on⟩
    · rintro (before | ⟨rfl, rfl, _⟩)
      · rw [reaches.on_iff on further, absent] at before
        cases before.1
      · exact ⟨present, .here⟩

/-- Clearing an entry cuts the walks through it. -/
theorem Reaches.cut_iff (low found : Nat) (absent : format.present word = false) :
    format.Reaches other along low found top root ↔ format.Reaches memory along low found top root ∧
        ¬(low ≤ depth ∧ SameAbove depth top path along) := by
  rcases reaches.write_cases walks walksAlong exclusive written low found with
    ⟨beside, same⟩ | ⟨further, on, same⟩
  · exact same.trans (and_iff_left beside).symm
  · rw [same, absent]
    exact iff_of_false (fun wrong => by cases wrong.1) fun wrong => wrong.2 ⟨further, on⟩

end Link

end Mmurtl.Tables.Format

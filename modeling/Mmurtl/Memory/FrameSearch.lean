/-
This file proves that the searches of the frame allocator are complete: a frame is found whenever
one is free, wherever the search begins, the lowest run of free frames is found whenever there is
one, and a range is claimed exactly when all of its frames are free.
-/

import Mmurtl.Library.FirstFit
import Mmurtl.Memory.FrameRuns

namespace Mmurtl.Frames

open FirstFit List

variable {frames : FrameAllocator}

/-! ### Taking frames -/

theorem mark_returns (idx : Nat) : (FrameAllocator.mark idx).Meets frames (fun _ _ => True)
    fun _ _ => False := by
  refine .gets (Program.Meets.bind (?_ : Program.Meets _ _ (fun _ _ => True) _) fun _ _ _ => ?_)
  · exact .when (fun _ => .modify trivial) fun _ => trivial
  · exact .modify trivial

theorem takeRun_returns (first count : Nat) :
    (FrameAllocator.takeRun first count).Meets frames (fun _ _ => True) fun _ _ => False := by
  refine .bind (?_ : Program.Meets _ _ (fun _ _ => True) _) fun _ _ _ =>
    .modify trivial
  exact .forEach (fun _ _ => True) trivial fun idx _ _ _ => mark_returns idx

/-! ### One frame -/

/-- The search returns the first free frame of those it looks at. -/
theorem allocateFrom_value (start total remaining i : Nat) :
    (FrameAllocator.allocateFrom start total remaining i).Meets frames
      (fun result _ => result = (((List.range' i remaining).map fun i => (start + i) % total).find?
        frames.isFree).map (· * frameSize)) fun _ _ => False := by
  induction remaining generalizing i with
  | zero => exact .pure rfl
  | succ remaining ih =>
    rw [range'_succ, map_cons, find?_cons]
    refine .gets ?_
    dsimp only
    cases free : frames.isFree ((start + i) % total) with
    | true =>
      refine (mark_returns _).bind fun _ _ _ => .changes (.pure rfl)
    | false => exact ih (i + 1)

/-- A search round the end looks at every frame. -/
theorem mem_rotated {start total idx : Nat} :
    idx ∈ (List.range' 0 total).map (fun i => (start + i) % total) ↔ idx < total := by
  rw [mem_map]
  constructor
  · rintro ⟨i, listed, rfl⟩
    rw [mem_range'_1] at listed
    exact Nat.mod_lt _ (by omega)
  · intro inside
    refine ⟨(idx + (total - start % total)) % total, ?_, ?_⟩
    · rw [mem_range'_1]
      exact ⟨Nat.zero_le _, (Nat.zero_add total).symm ▸ Nat.mod_lt _ (by omega)⟩
    · have early := Nat.mod_lt start (by omega : 0 < total)
      have round : start % total + (idx + (total - start % total)) = idx + total := by omega
      rw [Nat.add_mod_mod, ← Nat.mod_add_mod, round, Nat.add_mod_right, Nat.mod_eq_of_lt inside]

/-! ### Frames in a row -/

/-- The search returns the lowest run. -/
theorem findRun_value {count idx runStart runLen : Nat} (remaining : Nat)
    (scanned : Scanned frames.isFree count idx runLen)
    (run : runLen ≠ 0 → runStart + runLen = idx) :
    (FrameAllocator.findRun count remaining idx runStart runLen).Meets frames (fun result _ =>
        (∃ first, result = some (first * frameSize) ∧
          Lowest frames.isFree count (idx + remaining) first) ∨
        (result = none ∧ ∀ first, Run frames.isFree count first → idx + remaining < first + count))
      fun _ _ => False := by
  induction remaining generalizing idx runStart runLen with
  | zero => exact .pure (Or.inr ⟨rfl, fun first found => scanned.none found⟩)
  | succ remaining ih =>
    refine .gets ?_
    rw [← Nat.add_assoc, Nat.add_right_comm]
    refine .ite (fun here => ?_) fun here => ?_
    · have start : (if runLen = 0 then idx else runStart) + runLen = idx := by
        split
        · omega
        · exact run (by assumption)
      by_cases enough : runLen + 1 = count
      · rw [if_pos enough]
        refine (takeRun_returns _ _).bind fun _ _ _ => .pure (Or.inl ⟨_, rfl, ?_⟩)
        exact scanned.lowest here enough (by omega) start
      · rw [if_neg enough]
        exact ih (scanned.more here enough) fun _ => by omega
    · exact ih (scanned.used (Bool.eq_false_iff.mpr here)) fun wrong => absurd rfl wrong

/-! ### A given range -/

theorem all_isFree {first count : Nat} :
    (List.range' first count).all frames.isFree = true ↔ Run frames.isFree count first := by
  simp only [all_eq_true, mem_range'_1, and_imp, Run]

theorem claimRange_value (start count : Nat) :
    (FrameAllocator.claimRange start count).Meets frames (fun done _ => done = true ↔
      start % frameSize = 0 ∧ start / frameSize + count ≤ frames.totalFrames ∧
        Run frames.isFree count (start / frameSize)) fun _ _ => False := by
  refine .gets ?_
  dsimp only
  rw [← all_isFree]
  split
  · exact .pure ⟨nofun, fun claimed => absurd claimed.1 (by assumption)⟩
  · split
    · refine .pure ⟨nofun, fun claimed => ?_⟩
      obtain ⟨-, fits, free⟩ := claimed
      rename_i refused
      rcases refused with _ | _ | used
      · omega
      · omega
      · exact absurd free used
    · rename_i aligned granted
      refine (takeRun_returns _ _).bind fun _ _ _ => .pure ⟨fun _ => ?_, fun _ => rfl⟩
      exact ⟨by omega, by omega, by tauto⟩

/-! ### Completeness -/

/-- What the calls return on an allocator, in terms of the frames that are free. -/
structure Complete (frames : FrameAllocator) : Prop where
  one : ∃ result, (FrameAllocator.allocateZeroedFrame frames).1 = .ok result ∧
    (result = none ↔ ∀ idx < frames.totalFrames, frames.isFree idx = false)
  row : ∀ count, 1 ≤ count → ∃ result,
    (FrameAllocator.allocateZeroedContiguous count frames).1 = .ok result ∧
    (∀ phys, result = some phys ↔ ∃ first, phys = first * frameSize ∧
      Lowest frames.isFree count frames.totalFrames first) ∧
    (result = none ↔ ¬∃ first, first + count ≤ frames.totalFrames ∧ Run frames.isFree count first)
  range : ∀ start count, 1 ≤ count → ∃ done,
    (FrameAllocator.claimRange start count frames).1 = .ok done ∧
    (done = true ↔ start % frameSize = 0 ∧ start / frameSize + count ≤ frames.totalFrames ∧
      Run frames.isFree count (start / frameSize))

/-- The searches are complete on every allocator. -/
theorem frames_complete (frames : FrameAllocator) : Complete frames where
  one := by
    have value : FrameAllocator.allocateZeroedFrame.Meets frames _ _ :=
      .gets (allocateFrom_value frames.lastSearch frames.totalFrames frames.totalFrames 0)
    obtain ⟨result, after, run, rfl⟩ := value.returned
    refine ⟨_, congrArg Prod.fst run, ?_⟩
    simp only [Option.map_eq_none_iff, List.find?_eq_none, mem_rotated, Bool.not_eq_true]
  row := by
    intro count some
    have search : FrameAllocator.allocateZeroedContiguous count frames =
        FrameAllocator.findRun count frames.totalFrames 0 0 0 frames := by
      unfold FrameAllocator.allocateZeroedContiguous
      rw [if_neg (by omega)]
      rfl
    have value := Program.Meets.of_eq search
      (findRun_value frames.totalFrames (Scanned.zero some) fun wrong => absurd rfl wrong)
    obtain ⟨result, after, run, found⟩ := value.returned
    refine ⟨result, congrArg Prod.fst run, ?_⟩
    rw [Nat.zero_add] at found
    rcases found with ⟨first, rfl, lowest⟩ | ⟨rfl, none⟩
    · refine ⟨fun phys => ⟨fun same => ?_, ?_⟩, nofun, fun no => ?_⟩
      · cases same
        exact ⟨first, rfl, lowest⟩
      · rintro ⟨_, rfl, also⟩
        rw [lowest.unique also]
      · exact (no ⟨first, lowest.fits, lowest.run⟩).elim
    · refine ⟨fun phys => ⟨nofun, ?_⟩, fun _ => ?_, fun _ => rfl⟩
      · rintro ⟨first, -, lowest⟩
        exact absurd lowest.fits (Nat.not_le.mpr (none first lowest.run))
      · rintro ⟨first, fits, run⟩
        exact absurd fits (Nat.not_le.mpr (none first run))
  range := by
    intro start count _
    obtain ⟨done, _, run, claimed⟩ := (claimRange_value start count).returned
    exact ⟨done, congrArg Prod.fst run, claimed⟩

end Mmurtl.Frames

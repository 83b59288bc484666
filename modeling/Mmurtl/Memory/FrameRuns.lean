/-
This file proves the contract of the frame allocator over its runs. A run interleaves calls of
the allocator with writes of its clients, who leave free frames and the allocator's own frames
alone. The frames that are handed out are recorded from the results of the calls.
-/

import Mmurtl.Memory.Frames
import Mmurtl.Library.Transition

namespace Mmurtl.Frames

open Transition List Function

variable {bitmap : Nat → Bool} {start stop idx first total count minAddr : Nat}
  {ranges : List PhysRange} {frames : FrameAllocator} {done : List Nat} {good : Nat → Prop}
  {found : Option Nat}

/-! ### Runs -/

/-- The allocator and the frames that are handed out. -/
structure World where
  frames : FrameAllocator
  held : List Nat

inductive Action where
  | write (address : Nat) (value : UInt8)
  | allocate
  | allocateContiguous (count : Nat)
  | claim (start count : Nat)
  | deallocate (phys : Nat)

variable {action : Action}

/-- Clients do not write to free frames or to the allocator, and free what is handed out. -/
def World.Permitted (world : World) : Action → Prop
  | .write address _ =>
      world.frames.isFree (address / frameSize) = false ∧
        (address < world.frames.header ∨ world.frames.header + reservedBytes ≤ address)
  | .deallocate phys => ∃ idx ∈ world.held, phys = idx * frameSize
  | _ => True

/-- What an action does, with the frames recorded. -/
def World.after (world : World) : Action → World
  | .write address value =>
      { world with frames := { world.frames with
        memory := Function.update world.frames.memory address value } }
  | .allocate =>
      match FrameAllocator.allocateZeroedFrame world.frames with
      | (.ok (some phys), frames) => ⟨frames, phys / frameSize :: world.held⟩
      | (_, frames) => { world with frames := frames }
  | .allocateContiguous count =>
      match FrameAllocator.allocateZeroedContiguous count world.frames with
      | (.ok (some phys), frames) => ⟨frames, List.range' (phys / frameSize) count ++ world.held⟩
      | (_, frames) => { world with frames := frames }
  | .claim start count =>
      match FrameAllocator.claimRange start count world.frames with
      | (.ok true, frames) => ⟨frames, List.range' (start / frameSize) count ++ world.held⟩
      | (_, frames) => { world with frames := frames }
  | .deallocate phys =>
      ⟨(FrameAllocator.deallocateFrame phys world.frames).2, world.held.erase (phys / frameSize)⟩

/-- The runs of the allocator of some ranges, from any memory. -/
def frameSystem (usable reserved : List PhysRange) (minAddr : Nat) :
    LabelledSystem World Action where
  init world := world.held = [] ∧
    ∃ memory, init usable reserved minAddr memory = .ok world.frames
  step world action next := world.Permitted action ∧ next = world.after action

/-! ### The contract -/

/-- A frame lies inside one usable range, and overlaps no reserved one and not the allocator. -/
structure Suitable (usable reserved : List PhysRange) (header idx : Nat) : Prop where
  inside : ∃ range ∈ usable, range.start ≤ idx * frameSize ∧ (idx + 1) * frameSize ≤ range.stop
  unreserved : ∀ range ∈ reserved,
    (idx + 1) * frameSize ≤ range.start ∨ range.stop ≤ idx * frameSize
  apart : (idx + 1) * frameSize ≤ header ∨ header + reservedBytes ≤ idx * frameSize

/-- Some frames in a row are handed out: they are suitable, not held by anyone, and zero. -/
def World.HandsOut (world : World) (usable reserved : List PhysRange) (first count : Nat)
    (after : FrameAllocator) : Prop :=
  ∀ idx, first ≤ idx → idx < first + count →
    Suitable usable reserved world.frames.header idx ∧ idx ∉ world.held ∧
      after.memory.ZeroOn (idx * frameSize) frameSize

/-- What the calls promise: what is handed out is fit for use, a call that fails changes
nothing, and no call panics. -/
def World.Contract (world : World) (usable reserved : List PhysRange) : Action → Prop
  | .write _ _ => True
  | .allocate =>
      FrameAllocator.allocateZeroedFrame.Meets world.frames
        (fun result after => (result = none → after = world.frames) ∧
          ∀ phys, result = some phys → ∃ first, phys = first * frameSize ∧
            world.HandsOut usable reserved first 1 after)
        fun _ _ => False
  | .allocateContiguous count =>
      (FrameAllocator.allocateZeroedContiguous count).Meets world.frames
        (fun result after => (result = none → after = world.frames) ∧
          ∀ phys, result = some phys → ∃ first, phys = first * frameSize ∧
            world.HandsOut usable reserved first count after)
        fun _ _ => False
  | .claim start count =>
      (FrameAllocator.claimRange start count).Meets world.frames
        (fun result after => (result = false → after = world.frames) ∧
          (result = true → ∃ first, start = first * frameSize ∧
            world.HandsOut usable reserved first count after))
        fun _ _ => False
  | .deallocate phys =>
      (FrameAllocator.deallocateFrame phys).Meets world.frames (fun _ _ => True) fun _ _ => False

/-- The counter says how many frames are free. -/
def World.Counted (world : World) : Prop :=
  world.frames.freeFrames = countFree world.frames.bitmap world.frames.totalFrames

/-! ### Ranges of frames -/

theorem setBits_eq (used : Bool) (first count : Nat) (bitmap : Nat → Bool) (idx : Nat) :
    setBits used first count bitmap idx =
      if first ≤ idx ∧ idx < first + count then used else bitmap idx := by
  induction count with
  | zero =>
    rw [setBits, if_neg (by omega)]
  | succ count ih =>
    rw [setBits]
    by_cases last : idx = first + count
    · rw [last, update_self, if_pos (by omega)]
    · rw [update_of_ne last, ih]
      exact if_congr (by omega) rfl rfl

/-- The frames a range frees lie inside it. -/
theorem setRange_free (free : setRange bitmap start stop false idx = false) :
    bitmap idx = false ∨
      (start ≤ idx * frameSize ∧ (idx + 1) * frameSize ≤ min stop maxPhysicalMemory) := by
  simp only [setRange, Bool.false_eq_true, if_false] at free
  rw [setBits_eq] at free
  split at free
  case isTrue inside =>
    right
    generalize min stop maxPhysicalMemory = limit at inside
    unfold frameSize at *
    omega
  case isFalse => exact Or.inl free

/-- A frame that is free though a range is marked as used does not overlap it. -/
theorem setRange_used (free : setRange bitmap start stop true idx = false) :
    bitmap idx = false ∧ ((idx + 1) * frameSize ≤ maxPhysicalMemory →
      (idx + 1) * frameSize ≤ start ∨ stop ≤ idx * frameSize) := by
  simp only [setRange, if_true] at free
  rw [setBits_eq] at free
  split at free
  case isTrue => cases free
  case isFalse outside =>
    refine ⟨free, fun physical => ?_⟩
    have entries : bitmapEntries * 32 * frameSize = maxPhysicalMemory := by
      simp [bitmapEntries, maxPhysicalMemory, frameSize]
    generalize maxPhysicalMemory = limit at *
    generalize bitmapEntries * 32 = bound at *
    unfold frameSize at *
    omega

theorem foldl_setRange_free
    (free : ranges.foldl (fun bitmap range => setRange bitmap range.start range.stop false)
      bitmap idx = false) :
    bitmap idx = false ∨ ∃ range ∈ ranges,
      range.start ≤ idx * frameSize ∧ (idx + 1) * frameSize ≤ min range.stop maxPhysicalMemory := by
  induction ranges generalizing bitmap with
  | nil => exact Or.inl free
  | cons range rest ih =>
    rcases ih free with first | ⟨found, listed, inside⟩
    · rcases setRange_free first with old | inside
      · exact Or.inl old
      · exact Or.inr ⟨range, mem_cons_self, inside⟩
    · exact Or.inr ⟨found, mem_cons_of_mem _ listed, inside⟩

theorem foldl_setRange_used
    (free : ranges.foldl (fun bitmap range => setRange bitmap range.start range.stop true)
      bitmap idx = false) :
    bitmap idx = false ∧ ((idx + 1) * frameSize ≤ maxPhysicalMemory → ∀ range ∈ ranges,
      (idx + 1) * frameSize ≤ range.start ∨ range.stop ≤ idx * frameSize) := by
  induction ranges generalizing bitmap with
  | nil => exact ⟨free, fun _ _ listed => nomatch listed⟩
  | cons range rest ih =>
    obtain ⟨first, later⟩ := ih free
    obtain ⟨old, apart⟩ := setRange_used first
    refine ⟨old, fun physical other listed => ?_⟩
    rcases mem_cons.mp listed with rfl | inRest
    · exact apart physical
    · exact later physical other inRest

theorem le_foldl_max {numbers : List Nat} {number : Nat}
    (listed : number ≤ first ∨ number ∈ numbers) : number ≤ numbers.foldl max first := by
  induction numbers generalizing first with
  | nil =>
    rcases listed with low | wrong
    · exact low
    · cases wrong
  | cons head tail ih =>
    refine ih ?_
    rcases listed with _ | member
    · exact Or.inl (by omega)
    · rcases mem_cons.mp member with rfl | inTail
      · exact Or.inl (Nat.le_max_right _ _)
      · exact Or.inr inTail

variable {reserved : List PhysRange}

/-- Whatever the usable and the reserved ranges are, the frames that are free at the beginning
are suitable. -/
theorem initialBitmap_free {usable : List PhysRange} {header : Nat}
    (free : initialBitmap usable reserved header idx = false) :
    idx < totalFrames usable ∧ Suitable usable reserved header idx := by
  obtain ⟨unheld, apart⟩ := setRange_used free
  obtain ⟨freed, unreserved⟩ := foldl_setRange_used unheld
  rcases foldl_setRange_free freed with wrong | ⟨range, listed, low, _⟩
  · cases wrong
  · have physical : (idx + 1) * frameSize ≤ maxPhysicalMemory := by omega
    have stop : range.stop ≤ (usable.map PhysRange.stop).foldl max 0 :=
      le_foldl_max (Or.inr (mem_map_of_mem listed))
    refine ⟨?_, ⟨range, listed, low, by omega⟩, unreserved physical, apart physical⟩
    refine (Nat.le_div_iff_mul_le (show 0 < frameSize from Nat.succ_pos 4095)).mpr ?_
    show (idx + 1) * frameSize ≤ _
    omega

/-! ### Counting free frames -/

theorem countFree_eq_card (bitmap : Nat → Bool) (total : Nat) :
    countFree bitmap total = ((Finset.range total).filter fun idx => bitmap idx = false).card := by
  rw [countFree, ← toFinset_card_of_nodup (nodup_range.filter _)]
  congr 1
  ext idx
  simp

/-- Marking one free frame. -/
theorem countFree_mark (inside : idx < total) (free : bitmap idx = false) :
    countFree (Function.update bitmap idx true) total + 1 = countFree bitmap total := by
  rw [countFree_eq_card, countFree_eq_card]
  have listed : idx ∈ (Finset.range total).filter fun idx => bitmap idx = false := by
    simp [inside, free]
  have erased : ((Finset.range total).filter fun other =>
      Function.update bitmap idx true other = false) =
      ((Finset.range total).filter fun idx => bitmap idx = false).erase idx := by
    ext other
    by_cases same : other = idx
    · simp [same]
    · simp [same]
  rw [erased, Finset.card_erase_of_mem listed]
  exact Nat.sub_add_cancel (Finset.card_pos.mpr ⟨idx, listed⟩)

/-- Freeing one used frame. -/
theorem countFree_free (inside : idx < total) (used : bitmap idx = true) :
    countFree (Function.update bitmap idx false) total = countFree bitmap total + 1 := by
  have freed : Function.update bitmap idx false idx = false := update_self ..
  have marked := countFree_mark inside freed
  rw [update_idem, ← used, update_eq_self] at marked
  exact marked.symm

/-! ### Marking frames -/

/-- The allocator's own books: free frames are good and counted, and frames known to be zero are
free and zero. -/
structure Books (good : Nat → Prop) (frames : FrameAllocator) : Prop where
  good : ∀ idx, frames.bitmap idx = false → idx < frames.totalFrames ∧ good idx
  counted : frames.freeFrames = countFree frames.bitmap frames.totalFrames
  zero : ∀ idx, frames.zeroed idx = true →
    frames.bitmap idx = false ∧ frames.memory.ZeroOn (idx * frameSize) frameSize

/-- Some frames are marked as used and cleared, and nothing else is changed. -/
structure Marked (frames : FrameAllocator) (done : List Nat) (after : FrameAllocator) : Prop where
  bitmap : ∀ idx, after.bitmap idx = (frames.bitmap idx || decide (idx ∈ done))
  zeroed : ∀ idx, after.zeroed idx = (frames.zeroed idx && !decide (idx ∈ done))
  zero : ∀ idx ∈ done, after.memory.ZeroOn (idx * frameSize) frameSize
  agree : ∀ byte, byte / frameSize ∉ done → after.memory byte = frames.memory byte
  totalFrames : after.totalFrames = frames.totalFrames
  freeFrames : after.freeFrames = frames.freeFrames
  lastSearch : after.lastSearch = frames.lastSearch
  header : after.header = frames.header

theorem Marked.nil (frames : FrameAllocator) : Marked frames [] frames :=
  ⟨fun _ => by simp, fun _ => by simp, nofun, fun _ _ => rfl, rfl, rfl, rfl, rfl⟩

/-- The bytes of a frame. -/
theorem div_frameSize {byte : Nat} (low : idx * frameSize ≤ byte)
    (high : byte < idx * frameSize + frameSize) : byte / frameSize = idx := by
  unfold frameSize at *
  omega

/-- Clearing one frame. -/
theorem clear_frame (memory : Memory) (idx : Nat) :
    (memory.clear (idx * frameSize) (frameSize / 8)).ZeroOn (idx * frameSize) frameSize ∧
      ∀ byte, byte / frameSize ≠ idx →
        memory.clear (idx * frameSize) (frameSize / 8) byte = memory byte := by
  have whole : 8 * (frameSize / 8) = frameSize := rfl
  constructor
  · have zero := memory.zeroOn_clear (idx * frameSize) (frameSize / 8)
    rw [whole] at zero
    exact zero
  · intro _ other
    refine memory.clear_of_outside ?_
    rw [whole]
    by_contra inside
    exact other (div_frameSize (by omega) (by omega))

/-- Marking one more frame. -/
theorem mark_meets {before : FrameAllocator} (marked : Marked frames done before) (new : idx ∉ done)
    (clean : frames.zeroed idx = true → frames.memory.ZeroOn (idx * frameSize) frameSize) :
    (FrameAllocator.mark idx).Meets before (fun _ after => Marked frames (done ++ [idx]) after)
      fun _ _ => False := by
  have zeroed : before.zeroed idx = frames.zeroed idx := by simp [marked.zeroed, new]
  refine .gets ?_
  refine .bind (?_ : Program.Meets _ _ (fun _ after => ∃ memory,
    after = { before with memory := memory } ∧ memory.ZeroOn (idx * frameSize) frameSize ∧
    ∀ byte, byte / frameSize ≠ idx → memory byte = before.memory byte) _) ?_
  · refine .when (fun _ => ?_) fun known => ?_
    · obtain ⟨zero, agree⟩ := clear_frame before.memory idx
      exact .of_ok rfl ⟨_, rfl, zero, agree⟩
    · have known : frames.zeroed idx = true := by
        rw [← zeroed]
        exact (Bool.not_eq_false _).mp known
      refine ⟨before.memory, rfl, (clean known).congr fun byte low high => ?_, fun _ _ => rfl⟩
      refine marked.agree byte ?_
      rw [div_frameSize low high]
      exact new
  · rintro _ _ ⟨_, rfl, zero, agree⟩
    refine .of_ok rfl ⟨?_, ?_, ?_, ?_, marked.totalFrames, marked.freeFrames, marked.lastSearch,
      marked.header⟩
    · intro other
      by_cases same : other = idx
      · simp [same]
      · simp [same, marked.bitmap]
    · intro other
      by_cases same : other = idx
      · simp [same]
      · simp [same, marked.zeroed]
    · intro other listed
      rcases mem_append.mp listed with early | last
      · refine (marked.zero other early).congr fun byte low high => agree byte ?_
        rw [div_frameSize low high]
        exact fun same => new (same ▸ early)
      · rw [mem_singleton.mp last]
        exact zero
    · intro byte outside
      rw [mem_append, mem_singleton, not_or] at outside
      exact (agree byte outside.2).trans (marked.agree byte outside.1)

theorem Marked.countFree {after : FrameAllocator} (marked : Marked frames done after)
    (distinct : done.Nodup) (free : ∀ idx ∈ done, idx < total ∧ frames.bitmap idx = false) :
    countFree after.bitmap total + done.length = countFree frames.bitmap total := by
  have bitmap : after.bitmap = fun idx => frames.bitmap idx || decide (idx ∈ done) :=
    funext marked.bitmap
  rw [bitmap]
  clear bitmap marked
  induction done with
  | nil => simp
  | cons idx rest ih =>
    obtain ⟨away, restDistinct⟩ := nodup_cons.mp distinct
    obtain ⟨inside, unused⟩ := free idx mem_cons_self
    have later := ih restDistinct (forall_mem_cons.mp free).2
    have step : (fun other => frames.bitmap other || decide (other ∈ idx :: rest)) =
        Function.update (fun other => frames.bitmap other || decide (other ∈ rest)) idx true := by
      funext other
      by_cases same : other = idx
      · simp [same]
      · simp [same]
    have here : (fun other => frames.bitmap other || decide (other ∈ rest)) idx = false := by
      simp [unused, away]
    have one : Frames.countFree (Function.update (fun other => frames.bitmap other ||
        decide (other ∈ rest)) idx true) total + 1 = _ := countFree_mark inside here
    rw [step, length_cons]
    omega

/-- Marking good frames keeps the books. -/
theorem Books.marked {after : FrameAllocator} (books : Books good frames)
    (marked : Marked frames done after) (distinct : done.Nodup)
    (free : ∀ idx ∈ done, frames.bitmap idx = false) (last : Nat) :
    Books good { after with
      freeFrames := frames.freeFrames - done.length
      lastSearch := last } := by
  refine ⟨?_, ?_, ?_⟩
  · intro idx unused
    have unused : after.bitmap idx = false := unused
    rw [marked.bitmap, Bool.or_eq_false_iff] at unused
    rw [marked.totalFrames]
    exact books.good idx unused.1
  · show frames.freeFrames - done.length = Frames.countFree after.bitmap after.totalFrames
    have count := marked.countFree distinct fun idx listed =>
      ⟨(books.good idx (free idx listed)).1, free idx listed⟩
    rw [marked.totalFrames, books.counted]
    omega
  · intro idx known
    have known : after.zeroed idx = true := known
    rw [marked.zeroed, Bool.and_eq_true, Bool.not_eq_true', decide_eq_false_iff_not] at known
    obtain ⟨unused, zero⟩ := books.zero idx known.1
    refine ⟨?_, zero.congr fun byte low high => marked.agree byte ?_⟩
    · simp [marked.bitmap, unused, known.2]
    · rw [div_frameSize low high]
      exact known.2

/-- Taking free frames in a row. -/
theorem takeRun_meets (books : Books good frames) :
    (FrameAllocator.takeRun first count).Meets frames
      (fun _ after => ∃ marked, Marked frames (List.range' first count) marked ∧
        after = { marked with freeFrames := frames.freeFrames - count }) fun _ _ => False := by
  refine .bind (?_ : Program.Meets _ _ (fun _ after =>
    Marked frames (List.range' first count) after) _) ?_
  · refine (Program.Meets.forEach (fun rest after =>
      ∃ done, done ++ rest = List.range' first count ∧
      Marked frames done after) ⟨[], rfl, Marked.nil frames⟩ ?_).imp ?_
    · rintro idx rest _ ⟨done, whole, marked⟩
      have distinct : (done ++ idx :: rest).Nodup := by
        rw [whole]
        exact nodup_range'
      have new : idx ∉ done := fun listed =>
        (disjoint_of_nodup_append distinct) listed mem_cons_self
      refine (mark_meets marked new fun known => (books.zero idx known).2).imp ?_
      exact fun _ _ next => ⟨done ++ [idx], by rw [← whole, append_assoc]; rfl, next⟩
    · rintro _ _ ⟨_, whole, marked⟩
      rw [append_nil] at whole
      rw [← whole]
      exact marked
  · intro _ marked holds
    exact .of_ok rfl ⟨marked, holds, by rw [← holds.freeFrames]⟩

/-! ### Calls -/

/-- A call hands out some free frames in a row, or changes nothing. -/
def Grants (frames : FrameAllocator) (count : Nat) (result : Option Nat)
    (after : FrameAllocator) : Prop :=
  (result = none ∧ after = frames) ∨
    ∃ first marked last, result = some first ∧
      (∀ idx ∈ List.range' first count, frames.bitmap idx = false) ∧
      Marked frames (List.range' first count) marked ∧
      after = { marked with freeFrames := frames.freeFrames - count, lastSearch := last }

section

variable (books : Books good frames)
include books

theorem allocateFrom_meets (start total remaining i : Nat) :
    (FrameAllocator.allocateFrom start total remaining i).Meets frames
      (fun result after => ∃ found, result = found.map (· * frameSize) ∧
        Grants frames 1 found after) fun _ _ => False := by
  induction remaining generalizing i with
  | zero => exact .pure ⟨none, rfl, Or.inl ⟨rfl, rfl⟩⟩
  | succ remaining ih =>
    refine .gets ?_
    generalize (start + i) % total = idx
    refine .ite (fun free => ?_) fun free => ?_
    · have unused : frames.bitmap idx = false := by simpa [FrameAllocator.isFree] using free
      refine (mark_meets (Marked.nil frames) (not_mem_nil) fun known =>
        (books.zero idx known).2).bind ?_
      intro _ marked holds
      refine .changes (.pure ⟨some idx, rfl, Or.inr ⟨idx, marked, idx + 1, rfl, ?_, holds, ?_⟩⟩)
      · intro _ listed
        rw [mem_singleton.mp listed]
        exact unused
      · rw [← holds.freeFrames]
    · exact ih (i + 1)

theorem takeRun_grants (free : ∀ idx ∈ List.range' first count, frames.bitmap idx = false) :
    (FrameAllocator.takeRun first count).Meets frames
      (fun _ after => Grants frames count (some first) after) fun _ _ => False := by
  refine (takeRun_meets books).imp ?_
  rintro _ _ ⟨marked, holds, rfl⟩
  exact Or.inr ⟨first, marked, marked.lastSearch, rfl, free, holds, rfl⟩

theorem findRun_meets (remaining idx runStart runLen : Nat)
    (run : runLen ≠ 0 → runStart + runLen = idx)
    (free : ∀ other, idx ≤ other + runLen → other < idx → frames.bitmap other = false) :
    (FrameAllocator.findRun count remaining idx runStart runLen).Meets frames
      (fun result after => ∃ found, result = found.map (· * frameSize) ∧
        Grants frames count found after) fun _ _ => False := by
  induction remaining generalizing idx runStart runLen with
  | zero => exact .pure ⟨none, rfl, Or.inl ⟨rfl, rfl⟩⟩
  | succ remaining ih =>
    refine .gets ?_
    refine .ite (fun here => ?_) fun here => ?_
    · have unused : frames.bitmap idx = false := by simpa [FrameAllocator.isFree] using here
      have start : (if runLen = 0 then idx else runStart) + runLen = idx := by
        split
        · omega
        · exact run (by assumption)
      generalize (if runLen = 0 then idx else runStart) = first at start
      have all : ∀ other, idx + 1 ≤ other + (runLen + 1) → other < idx + 1 →
          frames.bitmap other = false := by
        intro other low high
        by_cases same : other = idx
        · rw [same]
          exact unused
        · exact free other (by omega) (by omega)
      by_cases enough : runLen + 1 = count
      · rw [if_pos enough]
        have whole : ∀ other ∈ List.range' first count, frames.bitmap other = false := by
          intro other listed
          rw [mem_range'_1] at listed
          exact all other (by omega) (by omega)
        refine (takeRun_grants books whole).bind fun _ after granted => ?_
        exact .pure ⟨some first, rfl, granted⟩
      · rw [if_neg enough]
        exact ih (idx + 1) first (runLen + 1) (fun _ => by omega) all
    · refine ih (idx + 1) runStart 0 (fun wrong => absurd rfl wrong) ?_
      exact fun other low high => by omega

/-- A used frame is cleared and free again. -/
theorem deallocateFrame_meets (used : frames.bitmap idx = true) (inside : idx < frames.totalFrames)
    (fine : good idx) :
    (FrameAllocator.deallocateFrame (idx * frameSize)).Meets frames
      (fun _ after => Books good after ∧ after.bitmap = Function.update frames.bitmap idx false ∧
        after.totalFrames = frames.totalFrames ∧ after.header = frames.header ∧
        ∀ byte, byte / frameSize ≠ idx → after.memory byte = frames.memory byte)
      fun _ _ => False := by
  have place : idx * frameSize / frameSize = idx := Nat.mul_div_cancel _ (Nat.succ_pos 4095)
  refine .require (Nat.mul_mod_left ..) (.gets ?_)
  rw [place]
  refine .require inside (.when (fun _ => ?_) fun wrong => ?_)
  · obtain ⟨zero, agree⟩ := clear_frame frames.memory idx
    refine .changes (.of_ok rfl ⟨⟨?_, ?_, ?_⟩, rfl, rfl, rfl, agree⟩)
    · intro other free
      have free : Function.update frames.bitmap idx false other = false := free
      by_cases same : other = idx
      · rw [same]
        exact ⟨inside, fine⟩
      · rw [update_of_ne same] at free
        exact books.good other free
    · rw [countFree_free inside used, books.counted]
    · intro other known
      show Function.update frames.bitmap idx false other = false ∧ _
      have known : Function.update frames.zeroed idx true other = true := known
      by_cases same : other = idx
      · subst same
        exact ⟨update_self .., zero⟩
      · rw [update_of_ne same] at known ⊢
        obtain ⟨free, old⟩ := books.zero other known
        refine ⟨free, old.congr fun byte low high => agree byte ?_⟩
        rw [div_frameSize low high]
        exact same
  · simp [FrameAllocator.isFree, used] at wrong

end

/-! ### The invariant -/

section Runs

variable {usable : List PhysRange} {world : World}

/-- The books are kept, and the frames that are handed out are suitable and marked as used. -/
structure Kept (usable reserved : List PhysRange) (world : World) : Prop where
  books : Books (Suitable usable reserved world.frames.header) world.frames
  held : ∀ idx ∈ world.held, world.frames.bitmap idx = true ∧ idx < world.frames.totalFrames ∧
    Suitable usable reserved world.frames.header idx
  distinct : world.held.Nodup

/-- A result is the address of a frame or nothing. -/
theorem found_of_map {phys : Nat} (same : some phys = found.map (· * frameSize)) :
    ∃ first, found = some first ∧ phys = first * frameSize ∧ phys / frameSize = first := by
  obtain ⟨first, rfl, rfl⟩ := Option.map_eq_some_iff.mp same.symm
  exact ⟨first, rfl, rfl, Nat.mul_div_cancel _ (Nat.succ_pos 4095)⟩

/-- A call that hands out nothing changes nothing. -/
theorem Grants.unchanged {after : FrameAllocator} (granted : Grants frames count found after)
    (nothing : none = found.map (· * frameSize)) : after = frames := by
  rcases granted with ⟨_, same⟩ | ⟨_, _, _, rfl, _⟩
  · exact same
  · cases nothing

section

variable (kept : Kept usable reserved world)
include kept

/-- Free frames are not held. -/
theorem Kept.not_held (free : world.frames.bitmap idx = false) : idx ∉ world.held := by
  intro listed
  have used := (kept.held idx listed).1
  rw [free] at used
  cases used

theorem Kept.handsOut {after : FrameAllocator}
    (granted : Grants world.frames count (some first) after) :
    world.HandsOut usable reserved first count after := by
  rcases granted with ⟨wrong, _⟩ | ⟨_, _, _, same, free, holds, rfl⟩
  · cases wrong
  · cases same
    intro idx low high
    have listed : idx ∈ List.range' first count := mem_range'_1.mpr ⟨low, high⟩
    exact ⟨(kept.books.good idx (free idx listed)).2, kept.not_held (free idx listed),
      holds.zero idx listed⟩

theorem Kept.granted {after : FrameAllocator}
    (granted : Grants world.frames count (some first) after) :
    Kept usable reserved ⟨after, List.range' first count ++ world.held⟩ := by
  rcases granted with ⟨wrong, _⟩ | ⟨_, marked, last, same, free, holds, rfl⟩
  · cases wrong
  · cases same
    have books := kept.books.marked holds nodup_range' free last
    rw [length_range'] at books
    refine ⟨?_, ?_, ?_⟩
    · rw [← holds.header] at books
      exact books
    · intro idx listed
      rw [holds.bitmap, holds.totalFrames, holds.header]
      rcases mem_append.mp listed with new | old
      · obtain ⟨inside, suitable⟩ := kept.books.good idx (free idx new)
        exact ⟨by simp [new], inside, suitable⟩
      · obtain ⟨used, inside, suitable⟩ := kept.held idx old
        exact ⟨by simp [used], inside, suitable⟩
    · exact List.Nodup.append nodup_range' kept.distinct
        fun idx new old => kept.not_held (free idx new) old

/-! ### Contracts -/

theorem allocate_meets : FrameAllocator.allocateZeroedFrame.Meets world.frames
      (fun result after => ∃ found, result = found.map (· * frameSize) ∧
        Grants world.frames 1 found after) fun _ _ => False :=
  .gets (allocateFrom_meets kept.books _ _ _ 0)

theorem allocateContiguous_meets (count : Nat) :
    (FrameAllocator.allocateZeroedContiguous count).Meets world.frames
      (fun result after => ∃ found, result = found.map (· * frameSize) ∧
        Grants world.frames count found after) fun _ _ => False := by
  unfold FrameAllocator.allocateZeroedContiguous
  split
  · exact .pure ⟨none, rfl, Or.inl ⟨rfl, rfl⟩⟩
  · exact .gets (findRun_meets kept.books _ 0 0 0 (fun wrong => absurd rfl wrong)
      fun other _ wrong => absurd wrong (Nat.not_lt_zero _))

theorem claim_meets (start count : Nat) : (FrameAllocator.claimRange start count).Meets world.frames
      (fun result after => (result = false ∧ after = world.frames) ∨
        (result = true ∧ ∃ first, start = first * frameSize ∧
          Grants world.frames count (some first) after)) fun _ _ => False := by
  refine .gets ?_
  dsimp only
  split
  · exact .pure (Or.inl ⟨rfl, rfl⟩)
  · split
    · exact .pure (Or.inl ⟨rfl, rfl⟩)
    · rename_i aligned checked
      rw [not_or, not_or, not_not, all_eq_true] at checked
      have free : ∀ idx ∈ List.range' (start / frameSize) count,
          world.frames.bitmap idx = false := by
        intro idx listed
        simpa [FrameAllocator.isFree] using checked.2.2 idx listed
      refine (takeRun_grants kept.books free).bind fun _ after granted => ?_
      refine .pure (Or.inr ⟨rfl, start / frameSize, ?_, granted⟩)
      exact (Nat.div_mul_cancel (Nat.dvd_of_mod_eq_zero (not_not.mp aligned))).symm

/-- A frame that is handed out is taken back: it is cleared and free again. -/
theorem deallocate_meets (listed : idx ∈ world.held) :
    (FrameAllocator.deallocateFrame (idx * frameSize)).Meets world.frames
      (fun _ after => Kept usable reserved ⟨after, world.held.erase idx⟩) fun _ _ => False := by
  obtain ⟨used, inside, suitable⟩ := kept.held idx listed
  refine (deallocateFrame_meets kept.books used inside suitable).imp ?_
  rintro _ _ ⟨books, bitmap, total, header, _⟩
  refine ⟨header ▸ books, fun other member => ?_, kept.distinct.erase idx⟩
  obtain ⟨different, old⟩ := (List.Nodup.mem_erase_iff kept.distinct).mp member
  rw [bitmap, total, header, update_of_ne different]
  exact kept.held other old

theorem Kept.write {address : Nat} {value : UInt8}
    (permitted : world.Permitted (.write address value)) :
    Kept usable reserved (world.after (.write address value)) := by
  refine ⟨⟨kept.books.good, kept.books.counted, ?_⟩, kept.held, kept.distinct⟩
  intro idx known
  obtain ⟨free, zero⟩ := kept.books.zero idx known
  refine ⟨free, zero.congr fun byte low high => update_of_ne ?_ ..⟩
  rintro rfl
  have used := permitted.1
  rw [div_frameSize low high] at used
  simp [FrameAllocator.isFree, free] at used

theorem Kept.after (permitted : world.Permitted action) :
    Kept usable reserved (world.after action) := by
  cases action with
  | write address value => exact kept.write permitted
  | allocate =>
    obtain ⟨result, after, run, found, same, granted⟩ := (allocate_meets kept).returned
    cases result with
    | none =>
      simp only [World.after, run, granted.unchanged same]
      exact kept
    | some phys =>
      obtain ⟨first, rfl, rfl, place⟩ := found_of_map same
      simp only [World.after, run, place]
      exact kept.granted granted
  | allocateContiguous count =>
    obtain ⟨result, after, run, _, same, granted⟩ :=
      (allocateContiguous_meets kept count).returned
    cases result with
    | none =>
      simp only [World.after, run, granted.unchanged same]
      exact kept
    | some phys =>
      obtain ⟨first, rfl, rfl, place⟩ := found_of_map same
      simp only [World.after, run, place]
      exact kept.granted granted
  | claim start count =>
    obtain ⟨_, after, run, ⟨rfl, rfl⟩ | ⟨rfl, first, rfl, granted⟩⟩ :=
      (claim_meets kept start count).returned
    · simp only [World.after, run]
      exact kept
    · have place : first * frameSize / frameSize = first :=
        Nat.mul_div_cancel _ (Nat.succ_pos 4095)
      simp only [World.after, run, place]
      exact kept.granted granted
  | deallocate phys =>
    obtain ⟨idx, listed, rfl⟩ := permitted
    have place : idx * frameSize / frameSize = idx := Nat.mul_div_cancel _ (Nat.succ_pos 4095)
    obtain ⟨_, after, run, holds⟩ := (deallocate_meets kept listed).returned
    simp only [World.after, run, place]
    exact holds

/-- What a call that hands out frames in a row promises. -/
theorem Kept.promise {result : Option Nat} {after : FrameAllocator}
    (same : result = found.map (· * frameSize)) (granted : Grants world.frames count found after) :
    (result = none → after = world.frames) ∧
      ∀ phys, result = some phys → ∃ first, phys = first * frameSize ∧
        world.HandsOut usable reserved first count after := by
  constructor
  · rintro rfl
    exact granted.unchanged same
  · rintro _ rfl
    obtain ⟨first, rfl, rfl, _⟩ := found_of_map same
    exact ⟨first, rfl, kept.handsOut granted⟩

theorem Kept.contract (permitted : world.Permitted action) :
    world.Contract usable reserved action := by
  cases action with
  | write address value => trivial
  | allocate =>
    refine (allocate_meets kept).imp ?_
    exact fun _ _ ⟨_, same, granted⟩ => kept.promise same granted
  | allocateContiguous count =>
    refine (allocateContiguous_meets kept count).imp ?_
    exact fun _ _ ⟨_, same, granted⟩ => kept.promise same granted
  | claim start count =>
    refine (claim_meets kept start count).imp ?_
    rintro _ _ (⟨rfl, rfl⟩ | ⟨rfl, first, rfl, granted⟩)
    · exact ⟨fun _ => rfl, nofun⟩
    · exact ⟨nofun, fun _ => ⟨first, rfl, kept.handsOut granted⟩⟩
  | deallocate phys =>
    obtain ⟨_, listed, rfl⟩ := permitted
    exact (deallocate_meets kept listed).imp fun _ _ _ => trivial

end

/-- The books of a new allocator. -/
theorem kept_init {memory : Memory} (made : init usable reserved minAddr memory = .ok frames) :
    Kept usable reserved ⟨frames, []⟩ := by
  obtain ⟨_, _, made⟩ := Outcome.bind_eq_ok.mp made
  cases made
  exact ⟨⟨fun idx => initialBitmap_free, rfl, nofun⟩, nofun, .nil⟩

theorem kept_of_reachable (reachable : Reachable (frameSystem usable reserved minAddr) world) :
    Kept usable reserved world := by
  refine reachable.invariant (Kept usable reserved) ?_ ?_
  · rintro ⟨frames, _⟩ ⟨rfl, _, made⟩
    exact kept_init made
  · rintro _ _ _ _ kept ⟨permitted, rfl⟩
    exact kept.after permitted

end Runs

/-- Whatever the usable and the reserved ranges are, in every run of an allocator that could be
placed, every call keeps its contract and the free frames are counted. -/
theorem frames_contract (usable reserved : List PhysRange) (minAddr : Nat) (world : World)
    (reachable : Reachable (frameSystem usable reserved minAddr) world) :
    world.Counted ∧ ∀ action, world.Permitted action → world.Contract usable reserved action := by
  have kept := kept_of_reachable reachable
  exact ⟨kept.books.counted, fun action => kept.contract⟩

/-- A memory of 520 frames. -/
def smallMemory : List PhysRange := [⟨0, 2129920, by decide, by decide⟩]

/-- The first frame is reserved. -/
def firstFrame : List PhysRange := [⟨0, 4096, by decide, by decide⟩]

/-- The allocator of this memory, which places itself behind the first frame. -/
def smallFrames : FrameAllocator where
  memory := Memory.clear (fun _ => 1) 4096 (reservedBytes / 8)
  bitmap := initialBitmap smallMemory firstFrame 4096
  zeroed := fun _ => false
  totalFrames := totalFrames smallMemory
  freeFrames := countFree (initialBitmap smallMemory firstFrame 4096) (totalFrames smallMemory)
  lastSearch := 0
  header := 4096

theorem place_eq_start {bytes limit : Nat} (small : start + bytes < 2 ^ 64)
    (fits : start + bytes ≤ limit) (free : reserved.find? (fun range =>
      decide (start < range.stop ∧ range.start < start + bytes)) = none) :
    place reserved bytes limit start = some start := by
  rw [place, if_neg (Nat.not_le.mpr small), if_neg (Nat.not_lt.mpr fits)]
  split
  case h_1 overlap found =>
    rw [free] at found
    cases found
  case h_2 => rfl

theorem init_smallFrames : init smallMemory firstFrame 100 (fun _ => 1) = .ok smallFrames := by
  have header : headerAddress smallMemory firstFrame 100 = some 4096 := by
    have start : alignUp (max 0 100) = 4096 := by decide
    have size : reservedBytes = 2101248 := by decide +kernel
    have limit : min 2129920 maxPhysicalMemory = 2129920 := by decide +kernel
    rw [headerAddress, smallMemory, findSome?_cons, start, size, limit,
      place_eq_start (by decide) (by decide) (by decide)]
  rw [init, header]
  rfl

/-- The allocator after the first two frames behind it were claimed. -/
def twoClaimed : World := World.after ⟨smallFrames, []⟩ (.claim 2105344 2)

theorem frames_contract_small :
    twoClaimed.held = [514, 515] ∧ twoClaimed.Counted ∧
      ∀ action, twoClaimed.Permitted action →
        twoClaimed.Contract smallMemory firstFrame action := by
  refine ⟨by decide +kernel, frames_contract smallMemory firstFrame 100 _ ?_⟩
  exact .step (.init ⟨rfl, _, init_smallFrames⟩) (.claim 2105344 2) ⟨trivial, rfl⟩

end Mmurtl.Frames

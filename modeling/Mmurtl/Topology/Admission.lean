/-
This file models how the boot processor admits the other processors and proves that with
simultaneous multithreading off no two admitted processors share a core. Processors may
describe one core with different masks, so overlapping is not transitive and the order of
the calls matters; what is kept is that the admitted cores are apart from each other.
-/

import Mathlib

namespace Mmurtl.Topology

/-! ### Cores -/

/-- Where a processor's topology was read from. -/
inductive Source where
  | intel1f
  | intelB
  | amd1e
  | legacy
  | armAffinity
  | unknown
  deriving DecidableEq

/-- A processor's place: the logical identifiers of its core are the base with any bits of
the mask. -/
structure Core where
  logical : BitVec 64
  base : BitVec 64
  mask : BitVec 64
  package : Option (BitVec 64)
  threads : BitVec 32
  source : Source
  deriving DecidableEq

namespace Core

def unknown (logical : BitVec 64) : Core := ⟨logical, logical, 0, none, 0, .unknown⟩

def x86 (id smtShift packageShift threads : BitVec 32) (source : Source) : Option Core :=
  if 31 < smtShift ∨ 31 < packageShift ∨ packageShift < smtShift ∨ threads = 0 ∨
      (1 : BitVec 64) <<< smtShift < threads.setWidth 64 then none
  else
    let mask := ((1 : BitVec 64) <<< smtShift) - 1
    some ⟨id.setWidth 64, id.setWidth 64 &&& ~~~mask, mask,
      some (id.setWidth 64 >>> packageShift), threads, source⟩

def arm (mpidr : BitVec 64) : Core :=
  let id := mpidr &&& 0xff00ffffff
  let mask : BitVec 64 := if mpidr &&& ((1 : BitVec 64) <<< 24) ≠ 0 then 255 else 0
  ⟨id, id &&& ~~~mask, mask, none, if mask = 0 then 1 else 256, .armAffinity⟩

def known (core : Core) : Bool := core.source != .unknown

/-- Whether the ranges of two cores meet, judged by both masks. -/
def overlaps (core other : Core) : Bool :=
  (core.base ^^^ other.base) &&& ~~~(core.mask ||| other.mask) == 0

/-- The identifiers in a core's sibling range. -/
def covers (core : Core) (id : BitVec 64) : Bool := (id ^^^ core.base) &&& ~~~core.mask == 0

/-- Two cores share no logical identifier. -/
def Apart (core other : Core) : Prop :=
  ∀ id, ¬ (core.covers id = true ∧ other.covers id = true)

theorem Apart.symm {core other : Core} (apart : Apart core other) : Apart other core :=
  fun id both => apart id both.symm

/-- A base without the bits of the mask leaves the identifier in the range. -/
theorem clear_covers (id mask : BitVec 64) :
    ((id ^^^ (id &&& ~~~mask)) &&& ~~~mask) = 0 := by
  apply BitVec.eq_of_getLsbD_eq
  intro i inside
  simp only [BitVec.getLsbD_and, BitVec.getLsbD_xor, BitVec.getLsbD_not,
    BitVec.ofNat_eq_ofNat, BitVec.getLsbD_zero, inside, decide_true, Bool.true_and]
  cases id.getLsbD i <;> cases mask.getLsbD i <;> rfl

theorem covers_x86 {id smtShift packageShift threads : BitVec 32} {source : Source} {core : Core}
    (read : x86 id smtShift packageShift threads source = some core) :
    core.covers core.logical = true := by
  unfold x86 at read
  split at read
  · cases read
  · cases read
    exact beq_iff_eq.mpr (clear_covers ..)

theorem covers_arm (mpidr : BitVec 64) : (arm mpidr).covers (arm mpidr).logical = true :=
  beq_iff_eq.mpr (clear_covers ..)

theorem covers_unknown (logical : BitVec 64) : (unknown logical).covers logical = true := by
  rw [covers, unknown, BitVec.xor_self, BitVec.zero_and]
  rfl

/-- Bit by bit, the ranges of overlapping cores are all that can meet. -/
theorem apart_of_not_overlaps {core other : Core} (disjoint : core.overlaps other = false) :
    Apart core other := by
  rintro id ⟨first, second⟩
  have here := beq_iff_eq.mp first
  have there := beq_iff_eq.mp second
  have meets : (core.base ^^^ other.base) &&& ~~~(core.mask ||| other.mask) = 0 := by
    apply BitVec.eq_of_getLsbD_eq
    intro i inside
    have firstBit := congrArg (BitVec.getLsbD · i) here
    have secondBit := congrArg (BitVec.getLsbD · i) there
    simp only [BitVec.getLsbD_and, BitVec.getLsbD_xor, BitVec.getLsbD_not, BitVec.getLsbD_or,
      BitVec.ofNat_eq_ofNat, BitVec.getLsbD_zero, inside, decide_true, Bool.true_and]
      at firstBit secondBit ⊢
    generalize id.getLsbD i = a at *
    generalize core.base.getLsbD i = b at *
    generalize other.base.getLsbD i = c at *
    generalize core.mask.getLsbD i = d at *
    generalize other.mask.getLsbD i = e at *
    revert firstBit secondBit
    revert a b c d e
    decide
  rw [overlaps, meets] at disjoint
  cases disjoint

end Core

/-! ### Admission -/

/-- What became of a processor. -/
inductive Reason where
  | empty
  | online
  | sibling
  | unknown
  deriving DecidableEq

structure Record where
  core : Core
  reason : Reason
  deriving DecidableEq

def Record.EMPTY : Record := ⟨.unknown 0, .empty⟩

/-- The records of the boot processor and of some others. -/
structure Admission (others : Nat) where
  disableSmt : Bool
  records : Vector Record (others + 1)

variable {core : Core} {admission : Admission others}

namespace Admission

variable {others : Nat}

def new (disableSmt : Bool) : Admission others := ⟨disableSmt, .replicate _ .EMPTY⟩

/-- Record the boot processor. -/
def bsp (admission : Admission others) (core : Core) : Admission others :=
  { admission with records := admission.records.set 0 ⟨core, .online⟩ }

/-- Whether an identifier lies in the sibling range of an admitted processor. -/
def coveredCandidate (admission : Admission others) (id : BitVec 64) : Bool :=
  admission.disableSmt && admission.records.toList.any fun record =>
    record.reason == .online && record.core.known && record.core.covers id

/-- What is recorded about a processor that asks to be admitted. -/
def verdict (admission : Admission others) (core : Core) : Reason :=
  if ¬ admission.disableSmt then .online
  else if ¬ core.known ∨ ¬ admission.records.head.core.known then .unknown
  else if admission.records.toList.any fun record =>
      record.reason == .online && core.overlaps record.core then .sibling
  else .online

def admitCpu (admission : Admission others) (cpu : Nat) (core : Core) : Bool × Admission others :=
  if cpu = 0 then (false, admission)
  else if inside : cpu < others + 1 then
    if admission.records[cpu].reason ≠ .empty then (false, admission)
    else
      let reason := admission.verdict core
      (reason == .online,
        { admission with records := admission.records.set cpu ⟨core, reason⟩ })
  else (false, admission)

/-- A CPU's record. -/
def record (admission : Admission others) (cpu : Fin (others + 1)) : Record :=
  admission.records.get cpu

/-- A CPU is online. -/
def Online (admission : Admission others) (cpu : Fin (others + 1)) : Prop :=
  (admission.record cpu).reason = .online

/-- Write a CPU's record. -/
def put (admission : Admission others) (cpu : Fin (others + 1)) (record : Record) :
    Admission others :=
  { admission with records := admission.records.set cpu record }

theorem record_put (admission : Admission others) (cpu other : Fin (others + 1)) (record : Record) :
    (admission.put cpu record).record other =
      if cpu = other then record else admission.record other := by
  show (admission.records.set cpu record)[other.val] = _
  rw [Vector.getElem_set]
  simp only [Fin.ext_iff]
  rfl

theorem record_new (disableSmt : Bool) (cpu : Fin (others + 1)) :
    (new disableSmt).record cpu = .EMPTY :=
  Vector.getElem_replicate cpu.isLt

/-- A call is refused without a trace, or it writes the record of a CPU that had none. -/
theorem admit_cases (admission : Admission others) (cpu : Nat) (core : Core) :
    admission.admitCpu cpu core = (false, admission) ∨
    ∃ place : Fin (others + 1), place ≠ 0 ∧ (admission.record place).reason = .empty ∧
      admission.admitCpu cpu core = (admission.verdict core == .online,
        admission.put place ⟨core, admission.verdict core⟩) := by
  unfold admitCpu
  by_cases boot : cpu = 0
  · exact .inl (if_pos boot)
  · rw [if_neg boot]
    by_cases inside : cpu < others + 1
    · rw [dif_pos inside]
      by_cases taken : admission.records[cpu].reason ≠ .empty
      · exact .inl (if_pos taken)
      · rw [if_neg taken]
        exact .inr ⟨⟨cpu, inside⟩, fun zero => boot (congrArg Fin.val zero), not_not.mp taken, rfl⟩
    · exact .inl (dif_neg inside)

/-! ### Isolation -/

/-- No two CPUs that are online share a core, and without topology only the boot processor
is online. -/
structure Isolated (admission : Admission others) : Prop where
  apart : ∀ first second, first ≠ second → admission.Online first → admission.Online second →
    (admission.record first).core.Apart (admission.record second).core
  bootKnown : (admission.record 0).core.known = false → ∀ cpu, cpu ≠ 0 → ¬ admission.Online cpu
  known : ∀ cpu, cpu ≠ 0 → admission.Online cpu → (admission.record cpu).core.known = true

/-- A CPU that was not online is online. -/
def Adds (before after : Admission others) : Prop :=
  ∃ cpu, ¬ before.Online cpu ∧ after.Online cpu

/-- What an admitted core is checked against. -/
theorem verdict_online (disabled : admission.disableSmt = true)
    (online : admission.verdict core = .online) :
    core.known = true ∧ (admission.record 0).core.known = true ∧
      ∀ cpu, admission.Online cpu → core.Apart (admission.record cpu).core := by
  have boot : admission.records.head = admission.record 0 := rfl
  rw [verdict, if_neg (not_not.mpr disabled), boot] at online
  by_cases blind : ¬ core.known ∨ ¬ (admission.record 0).core.known
  · rw [if_pos blind] at online
    cases online
  · rw [if_neg blind] at online
    obtain ⟨seen, bootSeen⟩ := not_or.mp blind
    refine ⟨not_not.mp seen, not_not.mp bootSeen, fun cpu other => ?_⟩
    apply Core.apart_of_not_overlaps
    cases meets : core.overlaps (admission.record cpu).core with
    | false => rfl
    | true =>
      have found : admission.records.toList.any (fun record =>
          record.reason == .online && core.overlaps record.core) = true := by
        refine List.any_eq_true.mpr ⟨admission.record cpu, ?_, ?_⟩
        · exact Vector.mem_toList_iff.mpr (Vector.getElem_mem cpu.isLt)
        · rw [meets, show (admission.record cpu).reason = .online from other]
          rfl
      rw [if_pos found] at online
      cases online

theorem coveredCandidate_iff {id : BitVec 64} : admission.coveredCandidate id = true ↔
    admission.disableSmt = true ∧ ∃ cpu, admission.Online cpu ∧
      (admission.record cpu).core.known = true ∧ (admission.record cpu).core.covers id = true := by
  rw [coveredCandidate, Bool.and_eq_true, List.any_eq_true]
  refine and_congr_right fun _ => ⟨?_, ?_⟩
  · rintro ⟨_, member, found⟩
    obtain ⟨place, inside, rfl⟩ := Vector.getElem_of_mem (Vector.mem_toList_iff.mp member)
    rw [Bool.and_eq_true, Bool.and_eq_true, beq_iff_eq, and_assoc] at found
    exact ⟨⟨place, inside⟩, found⟩
  · rintro ⟨cpu, online, known, covers⟩
    refine ⟨_, Vector.mem_toList_iff.mpr (Vector.getElem_mem cpu.isLt), ?_⟩
    rw [Bool.and_eq_true, Bool.and_eq_true, beq_iff_eq]
    exact ⟨⟨online, known⟩, covers⟩

/-- A processor with a covered identifier is refused as long as the records stand. -/
theorem verdict_of_coveredCandidate (self : core.covers core.logical = true)
    (covered : admission.coveredCandidate core.logical = true) :
    admission.verdict core ≠ .online := by
  intro online
  obtain ⟨disabled, cpu, other, _, covers⟩ := coveredCandidate_iff.mp covered
  exact (verdict_online disabled online).2.2 cpu other core.logical ⟨self, covers⟩

/-- Admission is decided with the setting it started with. -/
theorem disableSmt_admitCpu (admission : Admission others) (cpu : Nat) (core : Core) :
    (admission.admitCpu cpu core).2.disableSmt = admission.disableSmt := by
  rcases admission.admit_cases cpu core with refused | ⟨_, -, -, written⟩
  · rw [refused]
  · rw [written]
    rfl

theorem Isolated.bsp (disableSmt : Bool) (core : Core) :
    Isolated (((new disableSmt).bsp core : Admission others)) := by
  have only : ∀ cpu, cpu ≠ 0 → ¬ ((new disableSmt).bsp core : Admission others).Online cpu := by
    intro cpu other online
    have written : ((new disableSmt).put 0 ⟨core, .online⟩ : Admission others).Online cpu := online
    rw [Online, record_put, if_neg other.symm, record_new] at written
    cases written
  refine ⟨?_, fun _ => only, fun cpu other online => absurd online (only cpu other)⟩
  intro first second distinct firstOnline secondOnline
  have firstBoot : first = 0 := by_contra fun other => only first other firstOnline
  have secondBoot : second = 0 := by_contra fun other => only second other secondOnline
  exact absurd (firstBoot.trans secondBoot.symm) distinct

theorem Isolated.admitCpu (isolated : Isolated admission) (disabled : admission.disableSmt = true)
    (cpu : Nat) (core : Core) : Isolated (admission.admitCpu cpu core).2 := by
  rcases admission.admit_cases cpu core with refused | ⟨place, away, -, written⟩
  · rw [refused]
    exact isolated
  rw [written]
  have boot : (admission.put place ⟨core, admission.verdict core⟩).record 0 =
      admission.record 0 := by
    rw [record_put, if_neg away]
  refine ⟨?_, ?_, ?_⟩
  · intro first second distinct firstOnline secondOnline
    rw [Online, record_put] at firstOnline secondOnline
    rw [record_put, record_put]
    by_cases firstNew : place = first
    · have secondOld : place ≠ second := fun same => distinct (firstNew.symm.trans same)
      rw [if_pos firstNew] at firstOnline ⊢
      rw [if_neg secondOld] at secondOnline ⊢
      exact (verdict_online disabled firstOnline).2.2 second secondOnline
    · rw [if_neg firstNew] at firstOnline ⊢
      by_cases secondNew : place = second
      · rw [if_pos secondNew] at secondOnline ⊢
        exact ((verdict_online disabled secondOnline).2.2 first firstOnline).symm
      · rw [if_neg secondNew] at secondOnline ⊢
        exact isolated.apart first second distinct firstOnline secondOnline
  · rw [boot]
    intro blind other apart online
    rw [Online, record_put] at online
    by_cases latest : place = other
    · rw [if_pos latest] at online
      rw [(verdict_online disabled online).2.1] at blind
      cases blind
    · rw [if_neg latest] at online
      exact isolated.bootKnown blind other apart online
  · intro other apart online
    rw [Online, record_put] at online
    rw [record_put]
    by_cases latest : place = other
    · rw [if_pos latest] at online ⊢
      exact (verdict_online disabled online).1
    · rw [if_neg latest] at online ⊢
      exact isolated.known other apart online

/-- A call says yes exactly when it adds a CPU. -/
theorem admit_iff_adds (admission : Admission others) (cpu : Nat) (core : Core) :
    (admission.admitCpu cpu core).1 = true ↔ Adds admission (admission.admitCpu cpu core).2 := by
  rcases admission.admit_cases cpu core with refused | ⟨place, -, vacant, written⟩
  · rw [refused]
    exact ⟨nofun, fun ⟨_, before, after⟩ => absurd after before⟩
  · rw [written]
    constructor
    · intro admitted
      refine ⟨place, ?_, ?_⟩
      · rw [Online, vacant]
        exact nofun
      · rw [Online, record_put, if_pos rfl]
        exact beq_iff_eq.mp admitted
    · rintro ⟨other, before, after⟩
      rw [Online, record_put] at after
      by_cases latest : place = other
      · rw [if_pos latest] at after
        exact beq_iff_eq.mpr after
      · rw [if_neg latest] at after
        exact absurd after before

/-- The records after some calls, with multithreading off. -/
def afterCalls (boot : Core) (calls : List (Nat × Core)) : Admission others :=
  calls.foldl (fun admission call => (admission.admitCpu call.1 call.2).2) ((new true).bsp boot)

theorem isolated_afterCalls (boot : Core) (calls : List (Nat × Core)) :
    (afterCalls boot calls : Admission others).disableSmt = true ∧
      Isolated (afterCalls boot calls : Admission others) := by
  induction calls using List.reverseRecOn with
  | nil => exact ⟨rfl, .bsp true boot⟩
  | append_singleton calls call ih =>
    obtain ⟨disabled, isolated⟩ := ih
    rw [afterCalls, List.foldl_append]
    exact ⟨(disableSmt_admitCpu ..).trans disabled, isolated.admitCpu disabled call.1 call.2⟩

/-- Whatever order the CPUs come in and however they describe their cores, the CPUs online
are isolated, and the next call says yes exactly when it adds a CPU. -/
theorem admission_isolates (boot : Core) (calls : List (Nat × Core)) :
    Isolated (afterCalls boot calls : Admission others) ∧
    ∀ cpu core, ((afterCalls boot calls : Admission others).admitCpu cpu core).1 = true ↔
      Adds (afterCalls boot calls)
        ((afterCalls boot calls : Admission others).admitCpu cpu core).2 :=
  ⟨(isolated_afterCalls boot calls).2, fun cpu core => admit_iff_adds _ cpu core⟩

/-- A record that was written stays, so a covered identifier stays covered. -/
theorem coveredCandidate_admitCpu {id : BitVec 64} (covered : admission.coveredCandidate id = true)
    (cpu : Nat) (core : Core) : (admission.admitCpu cpu core).2.coveredCandidate id = true := by
  rcases admission.admit_cases cpu core with refused | ⟨place, -, vacant, written⟩
  · rw [refused]
    exact covered
  obtain ⟨disabled, other, online, found⟩ := coveredCandidate_iff.mp covered
  have away : place ≠ other := by
    rintro rfl
    rw [Online, vacant] at online
    cases online
  rw [written]
  refine coveredCandidate_iff.mpr ⟨disabled, other, ?_⟩
  rw [Online, record_put, if_neg away]
  exact ⟨online, found⟩

/-- A processor whose identifier is covered is refused whatever is called before, so nothing is
lost by starting it last. -/
theorem deferred_refused (boot : Core) (calls later : List (Nat × Core)) (core : Core)
    (read : (∃ id smtShift packageShift threads source,
      Core.x86 id smtShift packageShift threads source = some core) ∨
      (∃ mpidr, core = .arm mpidr) ∨ ∃ logical, core = .unknown logical)
    (covered : (afterCalls boot calls : Admission others).coveredCandidate core.logical = true)
    (cpu : Nat) :
    ((afterCalls boot (calls ++ later) : Admission others).admitCpu cpu core).1 = false := by
  have still : (afterCalls boot (calls ++ later) : Admission others).coveredCandidate
      core.logical = true := by
    induction later using List.reverseRecOn with
    | nil => rwa [List.append_nil]
    | append_singleton later call ih =>
      rw [← List.append_assoc, afterCalls, List.foldl_append]
      exact coveredCandidate_admitCpu ih call.1 call.2
  have self : core.covers core.logical = true := by
    rcases read with ⟨_, _, _, _, _, read⟩ | ⟨mpidr, rfl⟩ | ⟨logical, rfl⟩
    · exact Core.covers_x86 read
    · exact Core.covers_arm mpidr
    · exact Core.covers_unknown logical
  rcases admit_cases (afterCalls boot (calls ++ later)) cpu core with refused | ⟨_, -, -, written⟩
  · rw [refused]
  · rw [written]
    exact beq_eq_false_iff_ne.mpr (verdict_of_coveredCandidate self still)

/-- The second thread of the boot processor's core, after a thread of another core. -/
theorem deferred_refused_sibling :
    ((afterCalls (.arm 0x1000000) [(1, .arm 0x1000100)] : Admission 3).admitCpu 2
      (.arm 0x1000001)).1 = false :=
  deferred_refused (.arm 0x1000000) [] [(1, .arm 0x1000100)] _ (.inr (.inl ⟨_, rfl⟩)) (by decide)
    2

end Admission

end Mmurtl.Topology

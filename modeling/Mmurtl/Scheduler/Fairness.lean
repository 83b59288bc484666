/-
This file proves that round robin skips no ready task. All CPUs share one cursor, which every pick
moves to the task it returns. A task that waits for its turn is a number of places ahead of the
cursor, and every pick that returns another task moves the cursor closer to it.
-/

import Mmurtl.Scheduler.Exclusive

namespace Mmurtl.Scheduler

open Transition List

/-! ### Calls -/

/-- The scheduler on which a move calls `pickNext`, and for which CPU. -/
def callOf (move : Move Scheduler Operation) : Option (Scheduler × CpuIndex) :=
  match move.label with
  | .onTick cpu sp timer _ =>
      if !(move.before.cpus cpu).registered || move.before.tasks.isEmpty then none
      else (move.before.beforePick cpu sp timer).map (·, cpu)
  | _ => none

/-- The operations that add no entry to the table, from any state. -/
def tableOperations : LabelledSystem Scheduler Operation where
  init _ := True
  step scheduler operation next :=
    scheduler.perform operation = some next ∧ next.tasks.length = scheduler.tasks.length

/-- What a call returns. -/
def returned (call : Scheduler × CpuIndex) : Nat := (call.1.pickNext call.2).1

/-- The task at an index is ready, on no CPU, not pinned and not an idle task. -/
def AwaitsTurn (index : Nat) (scheduler : Scheduler) : Prop :=
  ∃ task, scheduler.tasks[index]? = some task ∧ task.state = .ready ∧ task.onCpu = none ∧
    task.pinnedCpu = none ∧ task.priority ≠ priorityIdle

/-- A call returns a task that round robin may pick, and does not fall back to an idle task. -/
def Serves (call : Scheduler × CpuIndex) : Prop :=
  call.1.tasks[returned call]?.any (pickable call.2) = true

/-! ### One call -/

variable {scheduler next : Scheduler} {cpu : CpuIndex} {index ahead count cursor : Nat}
  {call : Scheduler × CpuIndex} {calls : List (Scheduler × CpuIndex)}

/-- An index of a table is some places ahead of a cursor. -/
def Ahead (count cursor ahead index : Nat) : Prop :=
  ahead < count ∧ (cursor + (ahead + 1)) % count = index

/-- Every index is some places ahead. -/
theorem exists_ahead (cursor : Nat) (inside : index < count) :
    ∃ ahead, Ahead count cursor ahead index := by
  have positive : 0 < count := Nat.zero_lt_of_lt inside
  have small := Nat.mod_lt (cursor + 1) positive
  have whole := Nat.div_add_mod (cursor + 1) count
  refine ⟨(index + count - (cursor + 1) % count) % count, Nat.mod_lt _ positive, ?_⟩
  rw [Nat.add_comm _ 1, ← Nat.add_assoc, Nat.add_mod_mod,
    show cursor + 1 + (index + count - (cursor + 1) % count) =
      index + count * ((cursor + 1) / count + 1) by rw [Nat.mul_succ]; omega,
    Nat.add_mul_mod_self_left, Nat.mod_eq_of_lt inside]

section

variable (there : Ahead scheduler.tasks.length scheduler.rrCursor ahead index)
  (waits : AwaitsTurn index scheduler)
include there waits

/-- A call returns the first task ahead of the cursor that may be picked. -/
theorem pickNext_ahead (cpu : CpuIndex) : Serves (scheduler, cpu) ∧
    (scheduler.pickNext cpu).2.rrCursor = returned (scheduler, cpu) ∧ ∃ offset ≤ ahead,
      Ahead scheduler.tasks.length scheduler.rrCursor offset (returned (scheduler, cpu)) := by
  obtain ⟨task, found, ready, off, free, busy⟩ := waits
  obtain ⟨below, here⟩ := there
  have picks : scheduler.tasks[index]?.any (pickable cpu) = true := by
    simp [found, pickable, ready, off, free, busy]
  unfold Serves returned pickNext
  simp only [find?_map, Function.comp_def]
  cases first : (List.range scheduler.tasks.length).find? fun offset =>
      scheduler.tasks[(scheduler.rrCursor + (offset + 1)) % scheduler.tasks.length]?.any
        (pickable cpu) with
  | none =>
    have skipped := find?_eq_none.mp first ahead (mem_range.mpr below)
    rw [here] at skipped
    exact absurd picks skipped
  | some offset =>
    obtain ⟨holds, inside, earlier⟩ := find?_range_eq_some.mp first
    refine ⟨holds, rfl, offset, ?_, mem_range.mp inside, rfl⟩
    by_contra later
    have skipped := earlier ahead (by omega)
    rw [here, picks] at skipped
    cases skipped

/-- A call that returns another task moves the cursor closer. -/
theorem closer_of_other (other : returned (scheduler, cpu) ≠ index) : ∃ closer < ahead,
    Ahead scheduler.tasks.length (scheduler.pickNext cpu).2.rrCursor closer index := by
  obtain ⟨_, moved, offset, _, _, place⟩ := pickNext_ahead there waits cpu
  obtain ⟨_, here⟩ := there
  have nearer : offset ≠ ahead := by
    rintro rfl
    exact other (place.symm.trans here)
  refine ⟨ahead - (offset + 1), by omega, by omega, ?_⟩
  rw [moved, ← place, Nat.mod_add_mod, ← here]
  congr 1
  omega

end

/-! ### The calls of a run -/

/-- The calls follow each other: each begins with the cursor the one before it left. -/
def Linked (count : Nat) : Nat → List (Scheduler × CpuIndex) → Nat → Prop
  | cursor, [], last => last = cursor
  | cursor, call :: rest, last => call.1.rrCursor = cursor ∧ call.1.tasks.length = count ∧
      Linked count (call.1.pickNext call.2).2.rrCursor rest last

theorem Linked.snoc {last : Nat} (linked : Linked count cursor calls last)
    (begins : call.1.rrCursor = last) (length : call.1.tasks.length = count) :
    Linked count cursor (calls ++ [call]) (call.1.pickNext call.2).2.rrCursor := by
  induction calls generalizing cursor with
  | nil => exact ⟨begins.trans linked, length, rfl⟩
  | cons first rest ih => exact ⟨linked.1, linked.2.1, ih linked.2.2⟩

/-- Only a call of `pickNext` moves the cursor. -/
theorem rrCursor_perform {operation : Operation}
    (performed : scheduler.perform operation = some next) :
    match callOf ⟨scheduler, operation, next⟩ with
    | none => next.rrCursor = scheduler.rrCursor
    | some call => (call.1.rrCursor = scheduler.rrCursor ∧
        call.1.tasks.length = scheduler.tasks.length) ∧
        next.rrCursor = (call.1.pickNext call.2).2.rrCursor := by
  cases operation with
  | onTick cpu sp timer ipiAvailable =>
    obtain ⟨_, ticked, rfl⟩ := Option.map_eq_some_iff.mp performed
    unfold onTick at ticked
    unfold callOf
    by_cases inactive : (!(scheduler.cpus cpu).registered || scheduler.tasks.isEmpty) = true
    · rw [if_pos inactive] at ticked
      cases ticked
      simp only [if_pos inactive]
    · rw [if_neg inactive] at ticked
      simp only [Option.bind_eq_bind, Option.bind_eq_some_iff] at ticked
      obtain ⟨_, before, task, _, same⟩ := ticked
      cases same
      simp only [if_neg inactive, before, Option.map_some]
      exact ⟨(beforePick_kept before).2.2, rfl⟩
  | addTask task =>
    cases performed
    show (scheduler.addTask task).rrCursor = _
    unfold addTask
    split <;> rfl
  | postRequest cpu receiver msg =>
    obtain ⟨⟨result, after⟩, posted, rfl⟩ := Option.map_eq_some_iff.mp performed
    rcases postRequest_cases posted with ⟨_, _, rfl⟩ | ⟨_, _, _, _, _, _, _, _, _, _, _, rfl⟩
    · rfl
    · rfl
  | takeRequest cpu blocking =>
    obtain ⟨⟨result, after⟩, taken, rfl⟩ := Option.map_eq_some_iff.mp performed
    obtain ⟨_, _, _, ⟨_, _, _, _, rfl⟩ | ⟨_, _, _, rfl⟩ | ⟨_, _, _, rfl⟩⟩ :=
      takeRequest_cases taken
    · rfl
    · rfl
    · rfl
  | postReply cpu sender msg =>
    obtain ⟨⟨result, after⟩, replied, rfl⟩ := Option.map_eq_some_iff.mp performed
    rcases postReply_cases replied with ⟨_, _, rfl⟩ | ⟨_, _, _, _, _, _, _, _, _, _, _, rfl⟩
    · rfl
    · rfl
  | markExited cpu =>
    obtain ⟨⟨_, after⟩, marked, rfl⟩ := Option.map_eq_some_iff.mp performed
    obtain ⟨_, _, _, rfl⟩ := markExited_cases marked
    rfl
  | sleepUntil cpu deadline =>
    obtain ⟨_, _, _, rfl⟩ := sleepUntil_cases performed
    rfl
  | recheckReply cpu =>
    obtain ⟨⟨_, _⟩, checked, rfl⟩ := Option.map_eq_some_iff.mp performed
    obtain ⟨_, _, _, _, ⟨_, _, rfl⟩ | ⟨_, rfl⟩⟩ := recheckReply_cases checked
    · rfl
    · rfl
  | collectExited =>
    cases performed
    rfl

/-- The calls of a run follow each other. -/
theorem linked_of_run {start last : Scheduler} {moves : List (Move Scheduler Operation)}
    (run : Run tableOperations start moves last) :
    last.tasks.length = start.tasks.length ∧
      Linked start.tasks.length start.rrCursor (moves.filterMap callOf) last.rrCursor := by
  induction run with
  | nil => exact ⟨rfl, rfl⟩
  | @snoc last next moves operation run step ih =>
    obtain ⟨performed, kept⟩ := step
    obtain ⟨length, linked⟩ := ih
    have cursor := rrCursor_perform performed
    refine ⟨kept.trans length, ?_⟩
    rw [filterMap_append]
    cases called : callOf ⟨last, operation, next⟩ with
    | none =>
      rw [called] at cursor
      rw [filterMap_cons_none called, filterMap_nil, append_nil, cursor]
      exact linked
    | some call =>
      rw [called] at cursor
      rw [filterMap_cons_some called, filterMap_nil, cursor.2]
      exact linked.snoc cursor.1.1 (cursor.1.2.trans length)

/-- A task that waits is returned after at most as many calls as it is places ahead. -/
theorem Linked.serves {last : Nat} (linked : Linked count cursor calls last)
    (there : Ahead count cursor ahead index) (enough : ahead < calls.length)
    (waits : ∀ before call after, calls = before ++ call :: after → before.length ≤ ahead →
      (∀ earlier ∈ before, returned earlier ≠ index) → AwaitsTurn index call.1) :
    ∃ before call after, calls = before ++ call :: after ∧ before.length ≤ ahead ∧
      returned call = index ∧ ∀ earlier ∈ before, Serves earlier := by
  induction calls generalizing cursor ahead with
  | nil => cases enough
  | cons call rest ih =>
    obtain ⟨rfl, rfl, linked⟩ := linked
    have first := waits [] call rest rfl (Nat.zero_le _) nofun
    by_cases mine : returned call = index
    · exact ⟨[], call, rest, rfl, Nat.zero_le _, mine, nofun⟩
    obtain ⟨_, _, place⟩ := closer_of_other there first mine
    rw [length_cons] at enough
    obtain ⟨before, last, after, rfl, few, mineLast, serve⟩ := ih linked place (by omega)
      fun before last after split few others => by
        refine waits (call :: before) last after (congrArg _ split) ?_ ?_
        · rw [length_cons]
          omega
        · exact forall_mem_cons.mpr ⟨mine, others⟩
    refine ⟨call :: before, last, after, rfl, ?_, mineLast, ?_⟩
    · rw [length_cons]
      omega
    · exact forall_mem_cons.mpr ⟨(pickNext_ahead there first call.2).1, serve⟩

/-- Round robin never skips a ready task: a task that waits at every call until it is returned is
returned by one of as many calls as there are tasks, and no call before falls back to idling. -/
theorem served_within (start last : Scheduler) (moves : List (Move Scheduler Operation))
    (index : Nat) (run : Run tableOperations start moves last)
    (inside : index < start.tasks.length)
    (enough : start.tasks.length ≤ (moves.filterMap callOf).length)
    (waits : ∀ before call after, moves.filterMap callOf = before ++ call :: after →
      before.length < start.tasks.length → (∀ earlier ∈ before, returned earlier ≠ index) →
      AwaitsTurn index call.1) :
    ∃ before call after, moves.filterMap callOf = before ++ call :: after ∧
      before.length < start.tasks.length ∧ returned call = index ∧
      ∀ earlier ∈ before, Serves earlier := by
  obtain ⟨_, there⟩ := exists_ahead start.rrCursor inside
  have below := there.1
  obtain ⟨before, call, after, split, few, rest⟩ := (linked_of_run run).2.serves there (by omega)
    fun before call after split few => waits before call after split (by omega)
  exact ⟨before, call, after, split, by omega, rest⟩

/-- One CPU with its idle task and a task that is ready. -/
def oneReady : Scheduler :=
  (Scheduler.new.registerCpu 0 10 1).addTask (.new 3 ⟨0x1000, 0, 0x8000⟩ priorityDefault 0xA0)

def tick : Operation := .onTick 0 0x500 true false

def ticked (scheduler : Scheduler) : Scheduler := (scheduler.perform tick).getD scheduler

/-- One of two ticks returns the ready task. -/
theorem served_within_oneReady :
    ∃ before call after, [Move.mk oneReady tick (ticked oneReady),
        ⟨ticked oneReady, tick, ticked (ticked oneReady)⟩].filterMap callOf =
        before ++ call :: after ∧
      before.length < 2 ∧ returned call = 1 ∧ ∀ earlier ∈ before, Serves earlier := by
  have first : tableOperations.step oneReady tick (ticked oneReady) := ⟨rfl, rfl⟩
  have second : tableOperations.step (ticked oneReady) tick (ticked (ticked oneReady)) :=
    ⟨rfl, rfl⟩
  refine served_within oneReady _ _ 1 (((Run.nil _).snoc first).snoc second) (by decide)
    (by decide) fun before call after split _ others => ?_
  cases before with
  | nil =>
    obtain ⟨rfl, _⟩ := List.cons.inj split
    exact ⟨_, rfl, rfl, rfl, rfl, by decide⟩
  | cons earlier rest =>
    obtain ⟨rfl, _⟩ := List.cons.inj split
    exact absurd rfl (others _ (List.mem_cons_self ..))

end Mmurtl.Scheduler

/-
This file proves that the reaper takes what an exited task owns exactly once, and only when
no CPU uses it any more.

The machine is the scheduler with what it does not store: the identifiers handed out, the
address space each CPU loaded last, and the batches the reaper has taken and not finished.
Its moves are the lock-protected operations, in any order from any CPU, and the end of a
batch. A task that has exited only yields, so it issues no operation but the switch away
from it; an address space belongs to one task until the reaper takes it.
-/

import Mmurtl.Scheduler.Turns

namespace Mmurtl.Scheduler

open Transition List Function

variable {task old new : TaskControlBlock} {inbox : Nat → TaskControlBlock → List Rqb}
  {index : Nat} {operation : Operation} {cpu : CpuIndex} {sp : UInt64}
  {timer ipiAvailable : Bool} {outcome : TickOutcome} {before : Scheduler}
  {kick : Option UInt32}

/-! ### The machine -/

/-- The number of exited tasks the reaper has not finished releasing. -/
def unreapedTasks (scheduler : Scheduler) : Nat :=
  scheduler.tasks.countP (fun task => task.state == .exited && !task.reaped) + scheduler.reaping

/-- What one call of the reaper took, with the tasks it was taken from. -/
structure Batch where
  tasks : List Nat
  resources : List Reapable
  deriving DecidableEq

/-- The scheduler with the identifiers handed out, the address space each CPU loaded last, and
the batches the reaper has not finished. -/
structure Machine where
  scheduler : Scheduler
  issued : List Nat
  loaded : CpuIndex → UInt64
  batches : List Batch

/-- The tasks the reaper takes: the first ones that have exited and left their CPU. -/
def takenTasks (scheduler : Scheduler) : List TaskControlBlock :=
  (scheduler.tasks.filter collectable).take reaperBatch

/-- The hardware calls of an operation. -/
def archCalls (scheduler : Scheduler) : Operation → List ArchCall
  | .onTick cpu sp timer ipiAvailable =>
      ((scheduler.onTick cpu sp timer ipiAvailable).map TickOutcome.calls).getD []
  | _ => []

/-- The address spaces loaded after a hardware call. -/
def load (loaded : CpuIndex → UInt64) : ArchCall → CpuIndex → UInt64
  | .switchAddressSpace cpu space => Function.update loaded cpu space
  | _ => loaded

/-- The CPU whose current task issues an operation. -/
def Operation.caller : Operation → Option CpuIndex
  | .postRequest cpu _ _ => some cpu
  | .takeRequest cpu _ => some cpu
  | .postReply cpu _ _ => some cpu
  | .markExited cpu => some cpu
  | .sleepUntil cpu _ => some cpu
  | .recheckReply cpu => some cpu
  | .onTick _ _ _ _ => none
  | .addTask _ => none
  | .collectExited => none

/-- What the reaper does besides the operations: it finishes a batch. -/
inductive ReaperStep where
  | operation (operation : Operation)
  | finish (batch : Batch)

variable {step : ReaperStep} {start last : Machine}

namespace Machine

/-- The machine after an operation. -/
def after (machine : Machine) (operation : Operation) (scheduler : Scheduler) : Machine where
  scheduler := scheduler
  issued := match operation with
    | .addTask task => task.id :: machine.issued
    | _ => machine.issued
  loaded := (archCalls machine.scheduler operation).foldl load machine.loaded
  batches := match operation with
    | .collectExited => ⟨(takenTasks machine.scheduler).map TaskControlBlock.id,
        machine.scheduler.collectExited.1⟩ :: machine.batches
    | _ => machine.batches

/-- The machine after the reaper has released a batch. -/
def finish (machine : Machine) (batch : Batch) : Machine :=
  { machine with
    scheduler := { machine.scheduler with
      reaping := machine.scheduler.reaping - batch.resources.length }
    batches := machine.batches.erase batch }

/-- What the callers promise: besides what the operations need, a task that has exited issues
none, a new task has an identifier of its own, and its address space, if it has a private one,
is no other task's. -/
structure Permitted (machine : Machine) (operation : Operation) : Prop where
  allowed : machine.scheduler.Permitted operation
  alive : ∀ cpu, operation.caller = some cpu → ∀ index task,
    machine.scheduler.Current cpu index task → task.state ≠ .exited
  fresh : ∀ task, operation = .addTask task → task.id ∉ machine.issued
  private_ : ∀ task, operation = .addTask task → task.addressSpace ≠ 0 →
    ∀ other ∈ machine.scheduler.tasks, other.addressSpace ≠ task.addressSpace

end Machine

/-- The machines after distinct CPUs have registered. -/
inductive BootMachine : Machine → Prop where
  | new : BootMachine ⟨Scheduler.new, [], fun _ => 0, []⟩
  | register {machine : Machine} (boot : BootMachine machine) (cpu : CpuIndex) (hwId : UInt32)
      (id : Nat) (free : (machine.scheduler.cpus cpu).registered = false)
      (fresh : id ∉ machine.issued) :
      BootMachine { machine with
        scheduler := machine.scheduler.registerCpu cpu hwId id
        issued := id :: machine.issued }

/-- The lock-protected operations and the ends of the reaper's batches, in any order. -/
def reaperSystem : LabelledSystem Machine ReaperStep where
  init := BootMachine
  step machine step next :=
    match step with
    | .operation operation => machine.Permitted operation ∧
        ∃ scheduler, machine.scheduler.perform operation = some scheduler ∧
          next = machine.after operation scheduler
    | .finish batch => batch ∈ machine.batches ∧ next = machine.finish batch

/-! ### Histories -/

/-- The tasks the reaper takes in a move. -/
def collectedIn (move : Move Machine ReaperStep) : List Nat :=
  match move.label with
  | .operation .collectExited => (takenTasks move.before.scheduler).map TaskControlBlock.id
  | _ => []

/-- The task that exits in a move. -/
def exitedIn (move : Move Machine ReaperStep) : List Nat :=
  match move.label with
  | .operation (.markExited cpu) => (move.before.scheduler.currentId cpu).toList
  | _ => []

/-- The tasks whose batch the reaper finishes in a move. -/
def finishedIn (move : Move Machine ReaperStep) : List Nat :=
  match move.label with
  | .finish batch => batch.tasks
  | _ => []

/-! ### The reaper's walk -/

/-- An exited task the reaper has not taken. -/
def unreaped (task : TaskControlBlock) : Bool := task.state == .exited && !task.reaped

/-- The exited tasks the reaper has not taken, by identifier. -/
def unreapedIds (tasks : List TaskControlBlock) : List Nat :=
  (tasks.filter unreaped).map TaskControlBlock.id

theorem unreaped_of_collectable (collect : collectable task = true) :
    unreaped task = true ∧ task.onCpu = none := by
  simp only [collectable, Bool.and_eq_true, Option.isNone_iff_eq_none] at collect
  exact ⟨Bool.and_eq_true_iff.mpr collect.1, collect.2⟩

theorem unreaped_release (task : TaskControlBlock) : unreaped (release task) = false := by
  simp [unreaped, release]

theorem unreapedIds_cons (task : TaskControlBlock) (rest : List TaskControlBlock) :
    unreapedIds (task :: rest) = (if unreaped task then [task.id] else []) ++ unreapedIds rest := by
  unfold unreapedIds
  cases here : unreaped task <;> simp [here]

/-- The walk hands out what the first collectable tasks own, and their identifiers move from
the tasks not taken to the ones taken. -/
theorem collectTasks_spec (out : List Reapable) (tasks : List TaskControlBlock)
    (room : out.length ≤ reaperBatch) :
    (collectTasks out tasks).1 =
        out ++ ((tasks.filter collectable).take (reaperBatch - out.length)).map reapable ∧
      (unreapedIds (collectTasks out tasks).2 ++
        ((tasks.filter collectable).take (reaperBatch - out.length)).map
          TaskControlBlock.id).Perm (unreapedIds tasks) := by
  induction tasks generalizing out with
  | nil => simp [collectTasks, unreapedIds]
  | cons task rest ih =>
    unfold collectTasks
    by_cases collect : collectable task
    · rw [if_pos collect, filter_cons_of_pos collect]
      by_cases full : out.length = reaperBatch
      · rw [if_pos full, full, Nat.sub_self]
        simp
      · rw [if_neg full]
        obtain ⟨handed, moved⟩ := ih (out ++ [reapable task])
          (by rw [length_append, length_singleton]; omega)
        obtain ⟨left, more⟩ : ∃ left, reaperBatch - out.length = left + 1 :=
          ⟨reaperBatch - out.length - 1, by omega⟩
        have fewer : reaperBatch - (out ++ [reapable task]).length = left := by
          rw [length_append, length_singleton]
          omega
        rw [fewer] at handed moved
        rw [more, take_succ_cons, map_cons, map_cons]
        refine ⟨?_, ?_⟩
        · rw [handed, append_assoc]
          rfl
        · rw [unreapedIds_cons, unreaped_release, unreapedIds_cons,
            if_pos (unreaped_of_collectable collect).1]
          refine (perm_middle).trans ?_
          exact List.Perm.cons _ moved
    · rw [if_neg collect, filter_cons_of_neg collect]
      obtain ⟨handed, moved⟩ := ih out room
      refine ⟨handed, ?_⟩
      rw [unreapedIds_cons, unreapedIds_cons, append_assoc]
      exact List.Perm.append_left _ moved

/-! ### Tables -/

theorem Carried.unreaped_eq {inbox : List Rqb} (carried : Carried inbox old new) :
    unreaped new = unreaped old := by
  unfold unreaped
  rw [carried.reaped, Bool.eq_iff_iff]
  simp [carried.exited]

variable {scheduler : Scheduler} {machine : Machine} {moves : List (Move Machine ReaperStep)}

/-- Carrying every task over keeps the exited tasks the reaper has not taken. -/
theorem CarriedAll.unreapedIds_eq {next : Scheduler} (all : CarriedAll inbox scheduler next) :
    unreapedIds next.tasks = unreapedIds scheduler.tasks := by
  have marks : next.tasks.map (fun task => (unreaped task, task.id)) =
      scheduler.tasks.map (fun task => (unreaped task, task.id)) := by
    refine ext_getElem? fun index => ?_
    rw [getElem?_map, getElem?_map]
    exact rel_map_eq (all index) fun _ _ carried => Prod.ext carried.unreaped_eq carried.id
  have selected : ∀ tasks, unreapedIds tasks =
      ((tasks.map fun task => (unreaped task, task.id)).filter Prod.fst).map Prod.snd := by
    intro _
    rw [unreapedIds, filter_map, map_map]
    rfl
  rw [selected, selected, marks]

/-- Replacing a task that has not to be taken by another such task. -/
theorem unreapedIds_set {tasks : List TaskControlBlock} (found : tasks[index]? = some old)
    (oldTaken : unreaped old = false) (newTaken : unreaped new = false) :
    unreapedIds (tasks.set index new) = unreapedIds tasks := by
  induction tasks generalizing index with
  | nil => rfl
  | cons task rest ih =>
    cases index with
    | zero =>
      cases found
      rw [set_cons_zero, unreapedIds_cons, unreapedIds_cons, oldTaken, newTaken]
      rfl
    | succ index =>
      rw [set_cons_succ, unreapedIds_cons, unreapedIds_cons, ih found]

/-- A task that exits is one more to be taken. -/
theorem unreapedIds_exit {tasks : List TaskControlBlock} {me : Nat}
    (found : tasks[me]? = some task) (alive : task.state ≠ .exited) (whole : task.reaped = false)
    (exiting : Nat) :
    (unreapedIds ((tasks.modify me exit).map (abort exiting))).Perm
      (unreapedIds tasks ++ [task.id]) := by
  have aborted : ∀ tasks,
      unreapedIds (tasks.map (abort exiting)) = unreapedIds tasks := by
    intro tasks
    induction tasks with
    | nil => rfl
    | cons first rest ih =>
      have carried := Carried.abort exiting first
      rw [map_cons, unreapedIds_cons, unreapedIds_cons, ih, carried.unreaped_eq, carried.id]
  rw [aborted]
  induction tasks generalizing me with
  | nil => cases found
  | cons first rest ih =>
    cases me with
    | zero =>
      cases found
      have before : unreaped task = false := by simp [unreaped, alive]
      have after : unreaped (exit task) = true := by simp [unreaped, Scheduler.exit, whole]
      rw [modify_zero_cons, unreapedIds_cons, unreapedIds_cons, before, after]
      exact perm_append_comm
    | succ me =>
      rw [modify_succ_cons, unreapedIds_cons, unreapedIds_cons, append_assoc]
      exact List.Perm.append_left _ (ih found)

/-! ### The invariant of the machine -/

/-- Identifiers are unique and were handed out, a private address space has one owner, the
space a CPU loaded last is its current task's, and the count of tasks being released is that
of the open batches. -/
structure Machine.Sound (machine : Machine) : Prop where
  exclusive : Exclusive machine.scheduler
  unique : ∀ (first second : Nat) task other,
    machine.scheduler.tasks[first]? = some task → machine.scheduler.tasks[second]? = some other →
    task.id = other.id → first = second
  known : ∀ task ∈ machine.scheduler.tasks, task.id ∈ machine.issued
  owner : ∀ (first second : Nat) task other,
    machine.scheduler.tasks[first]? = some task → machine.scheduler.tasks[second]? = some other →
    task.addressSpace = other.addressSpace → task.addressSpace ≠ 0 → first = second
  loaded : ∀ cpu, machine.loaded cpu = 0 ∨ ∃ index task,
    machine.scheduler.Current cpu index task ∧ task.addressSpace = machine.loaded cpu

/-- The history accounts for the exited tasks: those in the table not taken yet and those
taken, and of the latter those in open batches and those finished. -/
structure Accounts (moves : List (Move Machine ReaperStep)) (machine : Machine) : Prop where
  pending : (unreapedIds machine.scheduler.tasks ++ moves.flatMap collectedIn).Perm
    (moves.flatMap exitedIn)
  batches : (machine.batches.flatMap Batch.tasks ++ moves.flatMap finishedIn).Perm
    (moves.flatMap collectedIn)
  lengths : ∀ batch ∈ machine.batches, batch.resources.length = batch.tasks.length
  count : machine.scheduler.reaping = (machine.batches.flatMap Batch.tasks).length
  distinct : (moves.flatMap exitedIn).Nodup
  known : ∀ id ∈ moves.flatMap exitedIn, id ∈ machine.issued
  alive : ∀ task ∈ machine.scheduler.tasks, task.state ≠ .exited → task.id ∉ moves.flatMap exitedIn
  reaped : ∀ task ∈ machine.scheduler.tasks, task.reaped = true →
    task.id ∈ moves.flatMap collectedIn

/-! ### What the operations do -/

/-- An operation that neither switches, exits a task, reaps nor adds one. -/
def Operation.quiet : Operation → Bool
  | .onTick _ _ _ _ | .markExited _ | .collectExited | .addTask _ => false
  | _ => true

/-- A quiet operation carries every task over and leaves the CPUs alone. -/
theorem carriedAll_perform {next : Scheduler} (performed : scheduler.perform operation = some next)
    (alive : ∀ cpu, operation.caller = some cpu → ∀ index task,
      scheduler.Current cpu index task → task.state ≠ .exited) (quiet : operation.quiet = true) :
    (∃ inbox, CarriedAll inbox scheduler next) ∧ next.cpus = scheduler.cpus ∧
      next.reaping = scheduler.reaping := by
  cases operation with
  | postRequest cpu receiver msg =>
    obtain ⟨⟨result, after⟩, posted, rfl⟩ := Option.map_eq_some_iff.mp performed
    rcases postRequest_cases posted with ⟨_, _, rfl⟩ |
      ⟨me, sender, index, _, current, different, found, targetId, _, _, _, rfl⟩
    · exact ⟨⟨_, CarriedAll.refl _⟩, rfl, rfl⟩
    · exact ⟨⟨_, carriedAll_posted current (alive cpu rfl me sender current) different found
        targetId⟩, rfl, rfl⟩
  | takeRequest cpu blocking =>
    obtain ⟨⟨result, after⟩, taken, rfl⟩ := Option.map_eq_some_iff.mp performed
    obtain ⟨me, task, current, effect⟩ := takeRequest_cases taken
    rcases effect with ⟨_, rest, _, _, rfl⟩ | ⟨_, _, _, rfl⟩ | ⟨_, _, _, rfl⟩
    · exact ⟨⟨_, carriedAll_taken scheduler me rest⟩, rfl, rfl⟩
    · exact ⟨⟨_, carriedAll_current current (alive cpu rfl me task current)
        ⟨rfl, rfl, nofun, rfl, rfl⟩⟩, rfl, rfl⟩
    · exact ⟨⟨_, CarriedAll.refl _⟩, rfl, rfl⟩
  | postReply cpu sender msg =>
    obtain ⟨⟨result, after⟩, replied, rfl⟩ := Option.map_eq_some_iff.mp performed
    rcases postReply_cases replied with ⟨_, _, rfl⟩ | ⟨_, _, _, _, _, _, _, _, _, _, _, rfl⟩
    · exact ⟨⟨_, CarriedAll.refl _⟩, rfl, rfl⟩
    · exact ⟨⟨fun _ task => task.inbox, carriedAll_modifyTask
        (fun task _ => Carried.answer _ task) fun _ _ _ => rfl⟩, rfl, rfl⟩
  | sleepUntil cpu deadline =>
    obtain ⟨me, task, current, rfl⟩ := sleepUntil_cases performed
    exact ⟨⟨_, carriedAll_current current (alive cpu rfl me task current)
      ⟨rfl, rfl, nofun, rfl, rfl⟩⟩, rfl, rfl⟩
  | recheckReply cpu =>
    obtain ⟨⟨_, _⟩, checked, rfl⟩ := Option.map_eq_some_iff.mp performed
    obtain ⟨me, task, current, _, ⟨_, _, rfl⟩ | ⟨_, rfl⟩⟩ := recheckReply_cases checked
    · exact ⟨⟨fun _ task => task.inbox, carriedAll_modifyTask
        (fun task _ => ⟨rfl, rfl, Iff.rfl, rfl, rfl⟩) fun _ _ _ => rfl⟩, rfl, rfl⟩
    · exact ⟨⟨_, carriedAll_current current (alive cpu rfl me task current)
        ⟨rfl, rfl, nofun, rfl, rfl⟩⟩, rfl, rfl⟩
  | onTick | markExited | collectExited | addTask => cases quiet

/-- The reschedule interrupts load no address space. -/
theorem foldl_load_kickIdle (scheduler : Scheduler) (cpu : CpuIndex) (woken : Nat)
    (cpus : List CpuIndex) (loaded : CpuIndex → UInt64) :
    (scheduler.kickIdle cpu woken cpus).foldl load loaded = loaded := by
  induction cpus generalizing woken with
  | nil => rfl
  | cons other rest ih =>
    unfold kickIdle
    split
    · rfl
    · split
      · exact ih _
      · exact ih _

/-- A switch loads the address space of the task switched to, on the CPU that switches. -/
theorem foldl_load_switchCalls (scheduler : Scheduler) (cpu : CpuIndex) (next : Nat)
    (task : TaskControlBlock) (loaded : CpuIndex → UInt64) :
    (scheduler.switchCalls cpu next task).foldl load loaded =
      Function.update loaded cpu task.addressSpace := by
  unfold switchCalls
  split <;> split <;> rfl

/-- After a context switch the CPU that switched has loaded its current task's space; the
other CPUs keep what they had. -/
theorem loaded_onTick (loaded : CpuIndex → UInt64)
    (ticked : scheduler.onTick cpu sp timer ipiAvailable = some outcome) :
    outcome.scheduler = scheduler ∧ outcome.calls.foldl load loaded = loaded ∨
      ∃ index task, outcome.scheduler.Current cpu index task ∧
        outcome.calls.foldl load loaded = Function.update loaded cpu task.addressSpace ∧
        ∀ other, other ≠ cpu → (outcome.scheduler.cpus other).current =
          (scheduler.cpus other).current := by
  unfold onTick at ticked
  split at ticked
  · cases ticked
    exact Or.inl ⟨rfl, rfl⟩
  · simp only [Option.bind_eq_bind, Option.bind_eq_some_iff] at ticked
    obtain ⟨saved, before, task, found, same⟩ := ticked
    cases same
    refine Or.inr ⟨(saved.pickNext cpu).1, resume cpu task, ⟨?_, ?_⟩, ?_, fun other apart => ?_⟩
    · show (Function.update (saved.pickNext cpu).2.cpus cpu _ cpu).current = _
      rw [update_self]
    · refine (modifyTask_task ..).trans ?_
      rw [if_pos rfl, found]
      rfl
    · rw [foldl_append, foldl_load_switchCalls]
      refine congrArg (Function.update · cpu _) ?_
      split
      · exact foldl_load_kickIdle ..
      · rfl
    · refine (congrArg PerCpu.current (update_of_ne apart ..)).trans ?_
      rw [(saved.pickNext_snd cpu).2.1, (beforePick_kept before).1]

/-! ### One move keeps the machine sound -/

section Sound

variable {machine : Machine}

theorem Machine.Sound.current_onCpu (sound : machine.Sound)
    (current : machine.scheduler.Current cpu index task) :
    task.onCpu = some cpu ∧ task.reaped = false := by
  exact ⟨sound.exclusive.onCpu_of_current current, sound.exclusive.not_reaped current⟩

/-- The tasks stay at their places with their identifiers, and with their spaces unless they have
left their CPU. -/
def Placed (before after : Scheduler) : Prop :=
  ∀ index : Nat, Option.Rel (fun old new : TaskControlBlock => new.id = old.id ∧
      (new.addressSpace = old.addressSpace ∨ new.addressSpace = 0 ∧ old.onCpu = none))
    before.tasks[index]? after.tasks[index]?

theorem Placed.source {next : Scheduler} (placed : Placed scheduler next)
    (found : next.tasks[index]? = some task) : ∃ old, scheduler.tasks[index]? = some old ∧
      task.id = old.id ∧
      (task.addressSpace = old.addressSpace ∨ task.addressSpace = 0 ∧ old.onCpu = none) :=
  rel_some_right (placed index) found

theorem CarriedAll.placed {next : Scheduler} (table : CarriedAll inbox before next) :
    Placed before next := fun index =>
  rel_mono (table index) fun _ _ carried =>
    ⟨carried.id, Or.inl (congrArg Reapable.space carried.owns)⟩

/-- Every operation leaves the tasks at their places, unless it adds one. -/
theorem placed_perform {next : Scheduler} (exclusive : Exclusive scheduler)
    (performed : scheduler.perform operation = some next)
    (alive : ∀ cpu, operation.caller = some cpu → ∀ (index : Nat) task,
      scheduler.Current cpu index task → task.state ≠ .exited)
    (adds : ∀ task, operation ≠ .addTask task) : Placed scheduler next := by
  by_cases quiet : operation.quiet = true
  · obtain ⟨⟨_, table⟩, _⟩ := carriedAll_perform performed alive quiet
    exact table.placed
  · cases operation with
    | onTick cpu sp timer ipiAvailable =>
      obtain ⟨_, ticked, rfl⟩ := Option.map_eq_some_iff.mp performed
      exact (carriedAll_onTick exclusive ticked).placed
    | markExited cpu =>
      obtain ⟨⟨_, _⟩, marked, rfl⟩ := Option.map_eq_some_iff.mp performed
      obtain ⟨me, task, current, rfl⟩ := markExited_cases marked
      intro index
      refine (exit_lookup ..).symm ▸ rel_map fun old _ => ?_
      have carried := Carried.abort task.id (if me = index then Scheduler.exit old else old)
      refine ⟨carried.id.trans ?_, Or.inl ((congrArg Reapable.space carried.owns).trans ?_)⟩
      · split <;> rfl
      · split <;> rfl
    | collectExited =>
      cases performed
      intro index
      show Option.Rel _ _ (collectTasks [] scheduler.tasks).2[index]?
      rcases collectTasks_task [] scheduler.tasks index with same | ⟨task, found, collect, taken⟩
      · rw [same]
        cases scheduler.tasks[index]? with
        | none => exact .none
        | some task => exact .some ⟨rfl, Or.inl rfl⟩
      · rw [found, taken]
        exact .some ⟨rfl, Or.inr ⟨rfl, (unreaped_of_collectable collect).2⟩⟩
    | addTask task => exact absurd rfl (adds task)
    | postRequest | takeRequest | postReply | sleepUntil | recheckReply => exact absurd rfl quiet

/-- An operation leaves the space a CPU loaded last and its current task alone, or the CPU has
loaded the space of its new task. -/
theorem Machine.loaded_after (permitted : machine.Permitted operation)
    (performed : machine.scheduler.perform operation = some scheduler) (home : CpuIndex) :
    ((machine.after operation scheduler).loaded home = machine.loaded home ∧
        (scheduler.cpus home).current = (machine.scheduler.cpus home).current) ∨
      ∃ index task, scheduler.Current home index task ∧
        task.addressSpace = (machine.after operation scheduler).loaded home := by
  by_cases quiet : operation.quiet = true
  · obtain ⟨_, cpus, _⟩ := carriedAll_perform performed permitted.alive quiet
    refine Or.inl ⟨?_, by rw [cpus]⟩
    cases operation <;> first | rfl | cases quiet
  · cases operation with
    | onTick cpu sp timer ipiAvailable =>
      obtain ⟨outcome, ticked, rfl⟩ := Option.map_eq_some_iff.mp performed
      have loads : (machine.after (.onTick cpu sp timer ipiAvailable) outcome.scheduler).loaded =
          outcome.calls.foldl load machine.loaded := by
        show (archCalls machine.scheduler _).foldl load machine.loaded = _
        rw [archCalls, ticked]
        rfl
      rw [loads]
      rcases loaded_onTick machine.loaded ticked with ⟨same, idle⟩ |
        ⟨index, task, current, loaded, others⟩
      · rw [idle, same]
        exact Or.inl ⟨rfl, rfl⟩
      · rw [loaded]
        by_cases here : home = cpu
        · subst here
          rw [update_self]
          exact Or.inr ⟨index, task, current, rfl⟩
        · rw [update_of_ne here]
          exact Or.inl ⟨rfl, others home here⟩
    | markExited cpu =>
      obtain ⟨⟨_, _⟩, marked, rfl⟩ := Option.map_eq_some_iff.mp performed
      obtain ⟨_, task, _, rfl⟩ := markExited_cases marked
      exact Or.inl ⟨rfl, rfl⟩
    | collectExited =>
      cases performed
      exact Or.inl ⟨rfl, rfl⟩
    | addTask task =>
      cases performed
      exact Or.inl ⟨rfl, by rw [addTask_cpus]⟩
    | postRequest | takeRequest | postReply | sleepUntil | recheckReply => exact absurd rfl quiet

section

variable (sound : machine.Sound)
include sound

/-- An operation that adds no task keeps a machine sound. -/
theorem Machine.Sound.perform (permitted : machine.Permitted operation)
    (performed : machine.scheduler.perform operation = some scheduler)
    (adds : ∀ task, operation ≠ .addTask task) : (machine.after operation scheduler).Sound := by
  have placed := placed_perform sound.exclusive performed permitted.alive adds
  have issued : (machine.after operation scheduler).issued = machine.issued := by
    cases operation <;> first | rfl | exact absurd rfl (adds _)
  refine ⟨sound.exclusive.perform permitted.allowed performed, ?_, ?_, ?_, ?_⟩
  · intro first second task other left right same
    obtain ⟨old, source, id, _⟩ := placed.source left
    obtain ⟨old', source', id', _⟩ := placed.source right
    exact sound.unique first second old old' source source' (id.symm.trans (same.trans id'))
  · intro task member
    obtain ⟨index, found⟩ := getElem?_of_mem member
    obtain ⟨old, source, id, _⟩ := placed.source found
    rw [id, issued]
    exact sound.known old (mem_of_getElem? source)
  · intro first second task _ left right same nonzero
    obtain ⟨old, source, _, kept | gone⟩ := placed.source left
    · obtain ⟨old', source', _, kept' | gone'⟩ := placed.source right
      · refine sound.owner first second old old' source source' ?_ (kept ▸ nonzero)
        rw [← kept, same, kept']
      · exact absurd (same.trans gone'.1) nonzero
    · exact absurd gone.1 nonzero
  · intro home
    rcases machine.loaded_after permitted performed home with ⟨same, current⟩ | found
    · rw [same]
      rcases sound.loaded home with none_ | ⟨index, _, here, space⟩
      · exact Or.inl none_
      · obtain ⟨new, found, _, kept | gone⟩ := rel_some_left (placed index) here.2
        · exact Or.inr ⟨index, new, ⟨current.trans here.1, found⟩, kept.trans space⟩
        · rw [(sound.current_onCpu here).1] at gone
          cases gone.2
    · exact Or.inr found

theorem Machine.Sound.add (permitted : machine.Permitted (.addTask task)) :
    (machine.after (.addTask task) (machine.scheduler.addTask task)).Sound := by
  obtain ⟨slot, added, free, elsewhere⟩ := addTask_task machine.scheduler task
  have cpus := addTask_cpus machine.scheduler task
  have fresh := permitted.fresh task rfl
  have mine := permitted.private_ task rfl
  have origin := fun {index other} => @origin_of_slot _ _ index slot task other added elsewhere
  refine ⟨sound.exclusive.addTask permitted.allowed, ?_, ?_, ?_, ?_⟩
  · intro first second left right leftFound rightFound same
    rcases origin leftFound with ⟨rfl, rfl⟩ | ⟨_, leftOld⟩ <;>
      rcases origin rightFound with ⟨rfl, rfl⟩ | ⟨_, rightOld⟩
    · rfl
    · exact absurd (same ▸ sound.known right (mem_of_getElem? rightOld)) fresh
    · exact absurd (same ▸ sound.known left (mem_of_getElem? leftOld)) fresh
    · exact sound.unique first second left right leftOld rightOld same
  · intro other member
    obtain ⟨index, found⟩ := getElem?_of_mem member
    rcases origin found with ⟨_, rfl⟩ | ⟨_, old⟩
    · exact mem_cons_self
    · exact mem_cons_of_mem _ (sound.known other (mem_of_getElem? old))
  · intro first second left right leftFound rightFound same nonzero
    rcases origin leftFound with ⟨rfl, rfl⟩ | ⟨_, leftOld⟩ <;>
      rcases origin rightFound with ⟨rfl, rfl⟩ | ⟨_, rightOld⟩
    · rfl
    · exact absurd same.symm (mine nonzero right (mem_of_getElem? rightOld))
    · exact absurd same (mine (same ▸ nonzero) left (mem_of_getElem? leftOld))
    · exact sound.owner first second left right leftOld rightOld same nonzero
  · intro home
    rcases sound.loaded home with none_ | ⟨index, old, here, space⟩
    · exact Or.inl none_
    refine Or.inr ⟨index, old, ⟨?_, (elsewhere index ?_).trans here.2⟩, space⟩
    · show ((machine.scheduler.addTask task).cpus home).current = _
      rw [cpus]
      exact here.1
    rintro rfl
    have reaped := (free old here.2).2
    rw [(sound.current_onCpu here).2] at reaped
    cases reaped

end

end Sound

/-! ### One move keeps the accounts -/

section Accounts

variable {machine : Machine} {moves : List (Move Machine ReaperStep)}

theorem flatMap_concat (select : Move Machine ReaperStep → List Nat)
    (moves : List (Move Machine ReaperStep)) (move : Move Machine ReaperStep) :
    (moves ++ [move]).flatMap select = moves.flatMap select ++ select move := by
  rw [flatMap_append, flatMap_singleton]

theorem perm_shift {ids taken moved more rest all : List Nat}
    (first : (ids ++ taken).Perm (moved ++ more)) (second : (moved ++ rest).Perm all) :
    (ids ++ (rest ++ taken)).Perm (all ++ more) := by
  calc (ids ++ (rest ++ taken)).Perm (ids ++ taken ++ rest) := by
        rw [append_assoc]
        exact perm_append_comm.append_left ids
    _ |>.Perm (moved ++ more ++ rest) := first.append_right rest
    _ |>.Perm (moved ++ rest ++ more) := by
        rw [append_assoc, append_assoc]
        exact perm_append_comm.append_left moved
    _ |>.Perm (all ++ more) := second.append_right more

section

variable (accounts : Accounts moves machine)
include accounts

/-- A move keeps the accounts if the tasks that exit are added to those to be taken, those that
are taken to the open batches, and those of finished batches are removed. -/
theorem Accounts.move {move : Move Machine ReaperStep} {next : Machine}
    (pending : (unreapedIds next.scheduler.tasks ++ collectedIn move).Perm
      (unreapedIds machine.scheduler.tasks ++ exitedIn move))
    (batches : (next.batches.flatMap Batch.tasks ++ finishedIn move).Perm
      (machine.batches.flatMap Batch.tasks ++ collectedIn move))
    (lengths : ∀ batch ∈ next.batches, batch.resources.length = batch.tasks.length)
    (count : next.scheduler.reaping = (next.batches.flatMap Batch.tasks).length)
    (distinct : (exitedIn move).Nodup)
    (fresh : ∀ id ∈ exitedIn move, id ∈ next.issued ∧ id ∉ moves.flatMap exitedIn)
    (issued : ∀ id ∈ machine.issued, id ∈ next.issued)
    (alive : ∀ task ∈ next.scheduler.tasks, task.state ≠ .exited →
      task.id ∉ moves.flatMap exitedIn ∧ task.id ∉ exitedIn move)
    (reaped : ∀ task ∈ next.scheduler.tasks, task.reaped = true →
      task.id ∈ moves.flatMap collectedIn ∨ task.id ∈ collectedIn move) :
    Accounts (moves ++ [move]) next := by
  have exits := flatMap_concat exitedIn moves move
  have collects := flatMap_concat collectedIn moves move
  refine ⟨?_, ?_, lengths, count, ?_, ?_, ?_, ?_⟩
  · rw [exits, collects]
    exact perm_shift pending accounts.pending
  · rw [collects, flatMap_concat finishedIn]
    exact perm_shift batches accounts.batches
  · rw [exits]
    exact accounts.distinct.append distinct fun id earlier here => (fresh id here).2 earlier
  · rw [exits]
    exact fun id member => (mem_append.mp member).elim
      (fun earlier => issued id (accounts.known id earlier)) fun here => (fresh id here).1
  · rw [exits]
    exact fun task member lives => fun listed => (mem_append.mp listed).elim
      (alive task member lives).1 (alive task member lives).2
  · rw [collects]
    exact fun task member done => mem_append.mpr (reaped task member done)

/-- A move in which no task exits, none is taken and no batch is finished keeps the accounts if
it keeps the tasks to be taken. -/
theorem Accounts.of_kept {move : Move Machine ReaperStep} {next : Machine}
    (quiet : exitedIn move = [] ∧ collectedIn move = [] ∧ finishedIn move = [])
    (ids : unreapedIds next.scheduler.tasks = unreapedIds machine.scheduler.tasks)
    (batches : next.batches = machine.batches)
    (reaping : next.scheduler.reaping = machine.scheduler.reaping)
    (issued : ∀ id ∈ machine.issued, id ∈ next.issued)
    (alive : ∀ task ∈ next.scheduler.tasks, task.state ≠ .exited → task.id ∉ moves.flatMap exitedIn)
    (reaped : ∀ task ∈ next.scheduler.tasks, task.reaped = true →
      task.id ∈ moves.flatMap collectedIn) : Accounts (moves ++ [move]) next := by
  obtain ⟨noExit, noCollect, noFinish⟩ := quiet
  refine accounts.move ?_ ?_ ?_ ?_ ?_ ?_ issued
    (fun task member lives => ⟨alive task member lives, ?_⟩)
    fun task member done => Or.inl (reaped task member done)
  · rw [ids, noExit, noCollect]
  · rw [batches, noCollect, noFinish]
  · rw [batches]
    exact accounts.lengths
  · rw [reaping, batches]
    exact accounts.count
  · rw [noExit]
    exact nodup_nil
  · rw [noExit]
    exact nofun
  · rw [noExit]
    exact not_mem_nil

/-- Such a move keeps the accounts if it carries every task over. -/
theorem Accounts.of_carried {move : Move Machine ReaperStep} {next : Machine}
    (quiet : exitedIn move = [] ∧ collectedIn move = [] ∧ finishedIn move = [])
    (table : CarriedAll inbox machine.scheduler next.scheduler)
    (batches : next.batches = machine.batches)
    (reaping : next.scheduler.reaping = machine.scheduler.reaping)
    (issued : ∀ id ∈ machine.issued, id ∈ next.issued) : Accounts (moves ++ [move]) next := by
  refine accounts.of_kept quiet table.unreapedIds_eq batches reaping issued
    (fun task member alive => ?_) fun task member reaped => ?_
  · obtain ⟨index, found⟩ := getElem?_of_mem member
    obtain ⟨old, source, carried⟩ := table.before found
    rw [carried.id]
    exact accounts.alive old (mem_of_getElem? source) fun exited =>
      alive (carried.exited.mpr exited)
  · obtain ⟨_, found⟩ := getElem?_of_mem member
    obtain ⟨old, source, carried⟩ := table.before found
    rw [carried.id]
    exact accounts.reaped old (mem_of_getElem? source) (carried.reaped.symm.trans reaped)

theorem Accounts.quiet (permitted : machine.Permitted operation)
    (performed : machine.scheduler.perform operation = some scheduler)
    (quiet : operation.quiet = true) :
    Accounts (moves ++ [⟨machine, .operation operation, machine.after operation scheduler⟩])
      (machine.after operation scheduler) := by
  obtain ⟨⟨_, table⟩, _, reaping⟩ := carriedAll_perform performed permitted.alive quiet
  refine accounts.of_carried ?_ table ?_ reaping ?_
  · cases operation <;> first | exact ⟨rfl, rfl, rfl⟩ | cases quiet
  · cases operation <;> first | rfl | cases quiet
  · cases operation <;> first | exact fun _ member => member | cases quiet

end

/-- A context switch does not touch the count of tasks being released. -/
theorem onTick_reaping (ticked : before.onTick cpu sp timer ipiAvailable = some outcome) :
    outcome.scheduler.reaping = before.reaping := by
  rcases onTick_cases ticked with ⟨_, same⟩ | ⟨_, saved, picked, after⟩
  · rw [same]
  · rw [after, ← (beforePick_kept picked).2.1]
    exact (saved.pickNext_snd cpu).2.2

theorem Accounts.onTick (accounts : Accounts moves machine) (sound : machine.Sound)
    (ticked : machine.scheduler.onTick cpu sp timer ipiAvailable = some outcome) :
    Accounts (moves ++ [⟨machine, .operation (.onTick cpu sp timer ipiAvailable),
        machine.after (.onTick cpu sp timer ipiAvailable) outcome.scheduler⟩])
      (machine.after (.onTick cpu sp timer ipiAvailable) outcome.scheduler) :=
  accounts.of_carried ⟨rfl, rfl, rfl⟩ (carriedAll_onTick sound.exclusive ticked) rfl
    (onTick_reaping ticked) fun _ member => member

theorem Accounts.add (accounts : Accounts moves machine)
    (permitted : machine.Permitted (.addTask task)) :
    Accounts (moves ++ [⟨machine, .operation (.addTask task),
        machine.after (.addTask task) (machine.scheduler.addTask task)⟩])
      (machine.after (.addTask task) (machine.scheduler.addTask task)) := by
  have fields := Prepared.fields permitted.allowed
  have ready : unreaped task = false := by simp [unreaped, fields.1]
  have fresh : task.id ∉ moves.flatMap exitedIn := fun member =>
    permitted.fresh task rfl (accounts.known task.id member)
  have members : ∀ other ∈ (machine.scheduler.addTask task).tasks,
      other = task ∨ other ∈ machine.scheduler.tasks := by
    intro other member
    rcases addTask_cases machine.scheduler task with ⟨_, _, _, _, _, added⟩ | added
    · rw [added] at member
      exact (mem_or_eq_of_mem_set member).symm
    · rw [added] at member
      exact (mem_append.mp member).symm.imp_left mem_singleton.mp
  refine accounts.of_kept ⟨rfl, rfl, rfl⟩ ?_ rfl ?_ (fun _ member => mem_cons_of_mem _ member)
    ?_ ?_
  · show unreapedIds (machine.scheduler.addTask task).tasks = _
    rcases addTask_cases machine.scheduler task with ⟨_, old, found, _, reaped, added⟩ | added
    · rw [added]
      exact unreapedIds_set found (by simp [unreaped, reaped]) ready
    · rw [added, unreapedIds, filter_append]
      simp [unreapedIds, ready]
  · show (machine.scheduler.addTask task).reaping = _
    rcases addTask_cases machine.scheduler task with ⟨_, _, _, _, _, added⟩ | added <;> rw [added]
  · intro other member alive
    rcases members other member with rfl | old
    · exact fresh
    · exact accounts.alive other old alive
  · intro other member reaped
    rcases members other member with rfl | old
    · rw [fields.2.2.2.2.2] at reaped
      cases reaped
    · exact accounts.reaped other old reaped

theorem Accounts.exit (accounts : Accounts moves machine) (sound : machine.Sound)
    (permitted : machine.Permitted (.markExited cpu))
    (marked : machine.scheduler.markExited cpu = some (kick, scheduler)) :
    Accounts (moves ++ [⟨machine, .operation (.markExited cpu),
        machine.after (.markExited cpu) scheduler⟩])
      (machine.after (.markExited cpu) scheduler) := by
  obtain ⟨me, task, current, rfl⟩ := markExited_cases marked
  have alive := permitted.alive cpu rfl me task current
  have exits : exitedIn ⟨machine, .operation (.markExited cpu), machine.after (.markExited cpu)
      { machine.scheduler with
        tasks := (machine.scheduler.tasks.modify me Scheduler.exit).map (abort task.id) }⟩ =
      [task.id] := by
    simp [exitedIn, currentId, current.1, current.2]
  have origin : ∀ other ∈ (machine.scheduler.tasks.modify me Scheduler.exit).map (abort task.id),
      ∃ (index : Nat) (old : TaskControlBlock), machine.scheduler.tasks[index]? = some old ∧
        other = abort task.id (if me = index then Scheduler.exit old else old) := by
    intro other member
    obtain ⟨index, found⟩ := getElem?_of_mem member
    rw [exit_lookup] at found
    obtain ⟨old, source, rfl⟩ := Option.map_eq_some_iff.mp found
    exact ⟨index, old, source, rfl⟩
  refine accounts.move ?_ (List.Perm.refl _) accounts.lengths accounts.count ?_ ?_
    (fun _ member => member) ?_ ?_
  · rw [exits]
    refine (append_nil _).symm ▸ ?_
    exact unreapedIds_exit current.2 alive (sound.current_onCpu current).2 task.id
  · rw [exits]
    exact nodup_singleton _
  · rw [exits]
    intro id here
    rw [mem_singleton.mp here]
    have member := mem_of_getElem? current.2
    exact ⟨sound.known task member, accounts.alive task member alive⟩
  · intro other member lives
    obtain ⟨index, old, source, rfl⟩ := origin other member
    have carried := Carried.abort task.id (if me = index then Scheduler.exit old else old)
    by_cases same : me = index
    · rw [if_pos same] at carried lives
      exact absurd (carried.exited.mpr rfl) lives
    · rw [if_neg same] at carried lives ⊢
      rw [carried.id, exits, mem_singleton]
      refine ⟨accounts.alive old (mem_of_getElem? source) fun exited =>
        lives (carried.exited.mpr exited), fun sameId => same ?_⟩
      exact (sound.unique index me old task source current.2 sameId).symm
  · intro other member reaped
    obtain ⟨index, old, source, rfl⟩ := origin other member
    have carried := Carried.abort task.id (if me = index then Scheduler.exit old else old)
    have id : (if me = index then Scheduler.exit old else old).id = old.id := by split <;> rfl
    have flag : (if me = index then Scheduler.exit old else old).reaped = old.reaped := by
      split <;> rfl
    rw [carried.reaped, flag] at reaped
    rw [carried.id, id]
    exact Or.inl (accounts.reaped old (mem_of_getElem? source) reaped)

/-- What one call of the reaper hands out and leaves. -/
theorem collectExited_spec (before : Scheduler) :
    before.collectExited.1 = (takenTasks before).map reapable ∧
      (unreapedIds before.collectExited.2.tasks ++
        (takenTasks before).map TaskControlBlock.id).Perm (unreapedIds before.tasks) :=
  collectTasks_spec [] before.tasks (Nat.zero_le _)

theorem Accounts.collect (accounts : Accounts moves machine) (sound : machine.Sound)
    (permitted : machine.Permitted .collectExited) :
    Accounts (moves ++ [⟨machine, .operation .collectExited,
        machine.after .collectExited machine.scheduler.collectExited.2⟩])
      (machine.after .collectExited machine.scheduler.collectExited.2) := by
  obtain ⟨handed, moved⟩ := collectExited_spec machine.scheduler
  have length : machine.scheduler.collectExited.1.length =
      ((takenTasks machine.scheduler).map TaskControlBlock.id).length := by
    rw [handed, length_map, length_map]
  have origin : ∀ other ∈ machine.scheduler.collectExited.2.tasks,
      ∃ (index : Nat) (old : TaskControlBlock), machine.scheduler.tasks[index]? = some old ∧
        other.id = old.id ∧ other.state = old.state ∧
        machine.scheduler.collectExited.2.tasks[index]? = some other ∧
        (other.reaped = true → old.reaped = true ∨ unreaped old = true) := by
    intro other member
    obtain ⟨index, found⟩ := getElem?_of_mem member
    rcases collectTasks_task [] machine.scheduler.tasks index with same |
      ⟨old, source, collect, after⟩
    · exact ⟨index, other, same.symm.trans found, rfl, rfl, found, Or.inl⟩
    · have other_eq : other = release old := Option.some.inj (found.symm.trans after)
      refine ⟨index, old, source, ?_, ?_, found,
        fun _ => Or.inr (unreaped_of_collectable collect).1⟩
      · rw [other_eq]
        rfl
      · rw [other_eq]
        rfl
  refine accounts.move ?_ ?_ ?_ ?_ nodup_nil nofun (fun _ member => member) ?_ ?_
  · exact (append_nil _).symm ▸ moved
  · exact (append_nil _).symm ▸ perm_append_comm
  · intro batch member
    rcases mem_cons.mp member with rfl | older
    · exact length
    · exact accounts.lengths batch older
  · show machine.scheduler.reaping + machine.scheduler.collectExited.1.length =
      ((takenTasks machine.scheduler).map TaskControlBlock.id ++
        machine.batches.flatMap Batch.tasks).length
    rw [length_append, accounts.count, length, Nat.add_comm]
  · intro other member lives
    obtain ⟨index, old, source, id, state, _⟩ := origin other member
    rw [id]
    exact ⟨accounts.alive old (mem_of_getElem? source) (state ▸ lives), not_mem_nil⟩
  · intro other member reaped
    obtain ⟨index, old, source, id, _, found, cases_⟩ := origin other member
    rw [id]
    rcases cases_ reaped with before | pending
    · exact Or.inl (accounts.reaped old (mem_of_getElem? source) before)
    · right
      have listed : old.id ∈ unreapedIds machine.scheduler.tasks :=
        mem_map_of_mem (mem_filter.mpr ⟨mem_of_getElem? source, pending⟩)
      rcases mem_append.mp (moved.mem_iff.mpr listed) with still | taken
      · obtain ⟨candidate, member', same⟩ := mem_map.mp still
        obtain ⟨inTable, unreaped_⟩ := mem_filter.mp member'
        obtain ⟨place, there⟩ := getElem?_of_mem inTable
        have after := sound.perform permitted rfl fun _ wrong => by cases wrong
        have places := after.unique place index candidate other there found (same.trans id.symm)
        subst places
        have same_task : candidate = other := Option.some.inj (there.symm.trans found)
        subst same_task
        simp [unreaped, reaped] at unreaped_
      · exact taken

theorem Accounts.finish (accounts : Accounts moves machine) {batch : Batch}
    (member : batch ∈ machine.batches) :
    Accounts (moves ++ [⟨machine, .finish batch, machine.finish batch⟩])
      (machine.finish batch) := by
  have parts : (machine.batches.flatMap Batch.tasks).Perm
      (batch.tasks ++ (machine.batches.erase batch).flatMap Batch.tasks) := by
    have perm := (perm_cons_erase member).flatMap_right Batch.tasks
    rwa [flatMap_cons] at perm
  refine accounts.move (List.Perm.refl _) ?_ ?_ ?_ nodup_nil nofun (fun _ member => member)
    (fun task there lives => ⟨accounts.alive task there lives, not_mem_nil⟩)
    fun task there done => Or.inl (accounts.reaped task there done)
  · exact (append_nil _).symm ▸ perm_append_comm.trans parts.symm
  · exact fun other older => accounts.lengths other (mem_of_mem_erase older)
  · show machine.scheduler.reaping - batch.resources.length =
      ((machine.batches.erase batch).flatMap Batch.tasks).length
    rw [accounts.count, parts.length_eq, length_append, accounts.lengths batch member,
      Nat.add_sub_cancel_left]

end Accounts

/-! ### Whole runs -/

/-- Every move keeps the machine sound and the accounts. -/
theorem sound_accounts_step {next : Machine} (sound : machine.Sound)
    (accounts : Accounts moves machine) (moved : reaperSystem.step machine step next) :
    next.Sound ∧ Accounts (moves ++ [⟨machine, step, next⟩]) next := by
  cases step with
  | finish batch =>
    obtain ⟨member, rfl⟩ := moved
    exact ⟨{ sound with exclusive := { sound.exclusive with } }, accounts.finish member⟩
  | operation operation =>
    obtain ⟨permitted, _, performed, rfl⟩ := moved
    by_cases adds : ∀ task, operation ≠ .addTask task
    · refine ⟨sound.perform permitted performed adds, ?_⟩
      by_cases quiet : operation.quiet = true
      · exact accounts.quiet permitted performed quiet
      cases operation with
      | onTick cpu sp timer ipiAvailable =>
        obtain ⟨_, ticked, rfl⟩ := Option.map_eq_some_iff.mp performed
        exact accounts.onTick sound ticked
      | markExited cpu =>
        obtain ⟨⟨_, _⟩, marked, rfl⟩ := Option.map_eq_some_iff.mp performed
        exact accounts.exit sound permitted marked
      | collectExited =>
        cases performed
        exact accounts.collect sound permitted
      | addTask task => exact absurd rfl (adds task)
      | postRequest | takeRequest | postReply | sleepUntil | recheckReply =>
        exact absurd rfl quiet
    · simp only [ne_eq, not_forall, not_not] at adds
      obtain ⟨_, rfl⟩ := adds
      cases performed
      exact ⟨sound.add permitted, accounts.add permitted⟩

theorem BootMachine.boot (boot : BootMachine machine) : Boot machine.scheduler := by
  induction boot with
  | new => exact .new
  | register _ cpu hwId id free _ ih =>
    exact .register ih cpu hwId id free

/-- When the CPUs have registered, all tasks run, none owns an address space, and nothing is
being released. -/
theorem BootMachine.tasks (boot : BootMachine machine) :
    (∀ task ∈ machine.scheduler.tasks, task.id ∈ machine.issued ∧ task.state = .running ∧
        task.reaped = false ∧ task.addressSpace = 0) ∧
      (machine.scheduler.tasks.map TaskControlBlock.id).Nodup ∧ machine.scheduler.reaping = 0 ∧
      machine.batches = [] ∧ ∀ cpu, machine.loaded cpu = 0 := by
  induction boot with
  | new => exact ⟨forall_mem_nil _, nodup_nil, rfl, rfl, fun _ => rfl⟩
  | @register machine _ cpu hwId id _ fresh ih =>
    obtain ⟨fields, distinct, reaping, batches, loaded⟩ := ih
    refine ⟨fun task member => ?_, ?_, reaping, batches, loaded⟩
    · rcases mem_append.mp member with older | newest
      · obtain ⟨known, rest⟩ := fields task older
        exact ⟨mem_cons_of_mem _ known, rest⟩
      · rw [mem_singleton.mp newest]
        exact ⟨mem_cons_self, rfl, rfl, rfl⟩
    · show ((machine.scheduler.tasks ++ [_]).map TaskControlBlock.id).Nodup
      rw [map_append, nodup_append]
      refine ⟨distinct, nodup_singleton _, fun other earlier last here => ?_⟩
      obtain ⟨task, member, rfl⟩ := mem_map.mp earlier
      rw [mem_singleton.mp here]
      intro same
      refine fresh ?_
      rw [← show task.id = id from same]
      exact (fields task member).1

theorem BootMachine.sound (boot : BootMachine machine) : machine.Sound := by
  obtain ⟨fields, distinct, _, _, loaded⟩ := boot.tasks
  refine ⟨boot.boot.exclusive, ?_, fun task member => (fields task member).1, ?_,
    fun cpu => Or.inl (loaded cpu)⟩
  · intro first second task other left right same
    have inside : first < (machine.scheduler.tasks.map TaskControlBlock.id).length := by
      rw [length_map]
      exact (List.getElem?_eq_some_iff.mp left).1
    refine (getElem?_inj inside distinct).mp ?_
    rw [getElem?_map, getElem?_map, left, right, Option.map_some, Option.map_some, same]
  · intro _ _ task _ left _ _ nonzero
    exact absurd (fields task (mem_of_getElem? left)).2.2.2 nonzero

theorem BootMachine.accounts (boot : BootMachine machine) : Accounts [] machine := by
  obtain ⟨fields, _, reaping, batches, _⟩ := boot.tasks
  have none_ : unreapedIds machine.scheduler.tasks = [] := by
    rw [unreapedIds, map_eq_nil_iff, filter_eq_nil_iff]
    intro task member
    simp [unreaped, (fields task member).2.1]
  refine ⟨?_, ?_, ?_, ?_, nodup_nil, ?_, ?_, ?_⟩
  · rw [none_]
    exact List.Perm.refl _
  · rw [batches]
    exact List.Perm.refl _
  · rw [batches]
    exact forall_mem_nil _
  · rw [reaping, batches]
    rfl
  · exact forall_mem_nil _
  · exact fun _ _ _ => not_mem_nil
  · intro task member reaped
    rw [(fields task member).2.2.1] at reaped
    cases reaped

/-- Along a run the machine is sound and the history accounts for the exited tasks. -/
theorem sound_accounts_of_run (boot : BootMachine start) (run : Run reaperSystem start moves last) :
    last.Sound ∧ Accounts moves last := by
  induction run with
  | nil => exact ⟨boot.sound, boot.accounts⟩
  | snoc _ step ih =>
    exact sound_accounts_step ih.1 ih.2 step

/-- What an exited task owns is taken once, after its exit, when no CPU uses it, and before its
slot is reused; and the count of unreaped tasks is that of the exited tasks whose batch is not
finished. -/
structure ReapedOnce (moves : List (Move Machine ReaperStep)) (last : Machine) : Prop where
  once : (moves.flatMap collectedIn).Nodup
  resources : ∀ move ∈ moves, move.label = .operation .collectExited →
    move.before.scheduler.collectExited.1 = (takenTasks move.before.scheduler).map reapable
  unused : ∀ move ∈ moves, move.label = .operation .collectExited →
    ∀ task ∈ takenTasks move.before.scheduler, ∀ cpu,
      (∀ index other, move.before.scheduler.Current cpu index other →
          other.id ≠ task.id) ∧
        (task.addressSpace ≠ 0 → move.before.loaded cpu ≠ task.addressSpace)
  exited : ∀ earlier move later, moves = earlier ++ move :: later →
    ∀ id ∈ collectedIn move, id ∈ earlier.flatMap exitedIn
  reused : ∀ earlier move later, moves = earlier ++ move :: later →
    ∀ (index : Nat) old new, move.before.scheduler.tasks[index]? = some old →
      move.after.scheduler.tasks[index]? = some new → new.id ≠ old.id →
      old.id ∈ earlier.flatMap collectedIn
  exits : (moves.flatMap exitedIn).Nodup
  count : unreapedTasks last.scheduler =
    ((moves.flatMap exitedIn).filter (· ∉ moves.flatMap finishedIn)).length

/-- The unreaped tasks are the exited ones whose batch is not finished. -/
theorem Accounts.count_eq (accounts : Accounts moves machine) : unreapedTasks machine.scheduler =
      ((moves.flatMap exitedIn).filter (· ∉ moves.flatMap finishedIn)).length := by
  have whole : (unreapedIds machine.scheduler.tasks ++ machine.batches.flatMap Batch.tasks ++
      moves.flatMap finishedIn).Perm (moves.flatMap exitedIn) := by
    rw [append_assoc]
    exact (accounts.batches.append_left _).trans accounts.pending
  have distinct := whole.nodup_iff.mpr accounts.distinct
  have apart := disjoint_of_nodup_append distinct
  have left : (unreapedIds machine.scheduler.tasks ++ machine.batches.flatMap Batch.tasks).filter
      (· ∉ moves.flatMap finishedIn) =
        unreapedIds machine.scheduler.tasks ++ machine.batches.flatMap Batch.tasks :=
    filter_eq_self.mpr fun id member => decide_eq_true (apart member)
  have right : (moves.flatMap finishedIn).filter (· ∉ moves.flatMap finishedIn) = [] :=
    filter_eq_nil_iff.mpr fun id member => by simp [member]
  rw [← (whole.filter _).length_eq, filter_append, left, right, append_nil,
    length_append, ← accounts.count, unreapedIds, length_map, ← countP_eq_length_filter]
  rfl

/-- A task that is taken has exited, is not being run, and its address space is not loaded. -/
theorem Machine.Sound.unused (sound : machine.Sound) (taken : task ∈ takenTasks machine.scheduler)
    (cpu : CpuIndex) :
    (∀ index other, machine.scheduler.Current cpu index other → other.id ≠ task.id) ∧
      (task.addressSpace ≠ 0 → machine.loaded cpu ≠ task.addressSpace) := by
  obtain ⟨member, collect⟩ := mem_filter.mp (mem_of_mem_take taken)
  obtain ⟨place, found⟩ := getElem?_of_mem member
  have away := (unreaped_of_collectable collect).2
  have notCurrent : ∀ (index : Nat) other,
      machine.scheduler.Current cpu index other → index ≠ place := by
    rintro index other current rfl
    have same : other = task := Option.some.inj (current.2.symm.trans found)
    rw [← same, (sound.current_onCpu current).1] at away
    cases away
  refine ⟨fun index other current same => notCurrent index other current
    (sound.unique index place other task current.2 found same), fun nonzero loaded => ?_⟩
  · rcases sound.loaded cpu with none_ | ⟨index, other, current, space⟩
    · rw [none_] at loaded
      exact nonzero loaded.symm
    · refine notCurrent index other current
        (sound.owner index place other task current.2 found (space.trans loaded) ?_)
      rw [space, loaded]
      exact nonzero

/-- A slot whose task changes held one that was taken. -/
theorem reused_of_step {next : Machine} (sound : machine.Sound) (accounts : Accounts moves machine)
    (moved : reaperSystem.step machine step next)
    (before : machine.scheduler.tasks[index]? = some old)
    (after : next.scheduler.tasks[index]? = some new) (other : new.id ≠ old.id) :
    old.id ∈ moves.flatMap collectedIn := by
  have kept : next.scheduler.tasks[index]? ≠ some old := by
    rw [after]
    rintro ⟨⟩
    exact other rfl
  cases step with
  | finish batch =>
    obtain ⟨_, rfl⟩ := moved
    exact absurd before kept
  | operation operation =>
    obtain ⟨permitted, scheduler, performed, rfl⟩ := moved
    by_cases adds : ∀ task, operation ≠ .addTask task
    · have placed := placed_perform sound.exclusive performed permitted.alive adds
      obtain ⟨source, found, id, _⟩ := placed.source after
      rw [before] at found
      cases found
      exact absurd id other
    · simp only [ne_eq, not_forall, not_not] at adds
      obtain ⟨task, rfl⟩ := adds
      cases performed
      obtain ⟨slot, _, free, elsewhere⟩ := addTask_task machine.scheduler task
      by_cases same : index = slot
      · subst same
        exact accounts.reaped old (mem_of_getElem? before) (free old before).2
      · exact absurd ((elsewhere index same).trans before) kept

/-- The reaper takes each exited task's resources exactly once and only when unused, along
every run. -/
theorem reapedOnce_of_run {start last : Machine} {moves : List (Move Machine ReaperStep)}
    (boot : BootMachine start) (run : Run reaperSystem start moves last) :
    ReapedOnce moves last := by
  obtain ⟨_, accounts⟩ := sound_accounts_of_run boot run
  have at_ : ∀ earlier move later, moves = earlier ++ move :: later →
      move.before.Sound ∧ Accounts earlier move.before ∧
        reaperSystem.step move.before move.label move.after := by
    rintro earlier move later rfl
    obtain ⟨before, step⟩ := run.split
    obtain ⟨sound, accounted⟩ := sound_accounts_of_run boot before
    exact ⟨sound, accounted, step⟩
  refine ⟨?_, fun move _ _ => (collectExited_spec move.before.scheduler).1, ?_, ?_, ?_,
    accounts.distinct, accounts.count_eq⟩
  · exact List.Nodup.of_append_right (accounts.pending.nodup_iff.mpr accounts.distinct)
  · intro move member _ task taken cpu
    obtain ⟨earlier, later, split⟩ := List.append_of_mem member
    exact (at_ earlier move later split).1.unused taken cpu
  · intro earlier move later split id collects
    obtain ⟨_, accounted, step⟩ := at_ earlier move later split
    have listed : id ∈ unreapedIds move.before.scheduler.tasks := by
      unfold collectedIn at collects
      split at collects
      · exact (collectExited_spec move.before.scheduler).2.mem_iff.mp
          (List.mem_append_right _ collects)
      · cases collects
    exact accounted.pending.mem_iff.mp (List.mem_append_left _ listed)
  · intro earlier move later split _ _ _ before after other
    obtain ⟨sound, accounted, step⟩ := at_ earlier move later split
    exact reused_of_step sound accounted step before after other

/-! ### A task that exits -/

/-- The machine after an operation; the machine itself where the operation is not possible. -/
def Machine.next (machine : Machine) (operation : Operation) : Machine :=
  ((machine.scheduler.perform operation).map (machine.after operation)).getD machine

theorem step_next (permitted : machine.Permitted operation)
    (possible : (machine.scheduler.perform operation).isSome = true) :
    reaperSystem.step machine (.operation operation) (machine.next operation) := by
  obtain ⟨scheduler, performed⟩ := Option.isSome_iff_exists.mp possible
  refine ⟨permitted, scheduler, performed, ?_⟩
  rw [Machine.next, performed]
  rfl

/-- An operation no task issues and that adds none is permitted. -/
theorem permitted_of_free (free : operation.caller = none)
    (noAdd : ∀ task, operation ≠ .addTask task) : machine.Permitted operation := by
  refine ⟨?_, fun cpu calls => ?_, fun task add => absurd add (noAdd task),
    fun task add => absurd add (noAdd task)⟩
  · cases operation with
    | addTask task => exact absurd rfl (noAdd task)
    | markExited => cases free
    | _ => trivial
  · rw [free] at calls
    cases calls

def oneCpu : Machine := ⟨Scheduler.new.registerCpu 0 10 1, [1], fun _ => 0, []⟩

def program : TaskControlBlock :=
  .newUser 2 ⟨0x1000, 0x9000, 0x8000⟩ priorityDefault 0xA0 0x5000 7 false true

def addedMachine : Machine := oneCpu.next (.addTask program)

def startedMachine : Machine := addedMachine.next (.onTick 0 0x500 true false)

def exitedMachine : Machine := startedMachine.next (.markExited 0)

def leftMachine : Machine := exitedMachine.next (.onTick 0 0x600 true false)

/-- The batch the reaper takes when the task has left the CPU. -/
def exitBatch : Batch := ⟨[2], [⟨0x9000, 0x1000, 0x5000, some 7⟩]⟩

theorem permitted_added : oneCpu.Permitted (.addTask program) := by
  refine ⟨.user .., (fun _ wrong => by cases wrong), ?_, ?_⟩
  · rintro _ ⟨⟩
    decide
  · rintro _ ⟨⟩ _ other member
    rw [show other = TaskControlBlock.adoptCurrent 1 priorityIdle 0 from
      mem_singleton.mp member]
    decide

theorem permitted_exited : startedMachine.Permitted (.markExited 0) := by
  have current : (startedMachine.scheduler.cpus 0).current = some 1 := by decide +kernel
  have idle : (startedMachine.scheduler.cpus 0).idleIdx = 0 := by decide +kernel
  have running : startedMachine.scheduler.tasks[1]?.map TaskControlBlock.state =
      some .running := by decide +kernel
  refine ⟨?_, ?_, (fun _ wrong => by cases wrong), (fun _ wrong => by cases wrong)⟩
  · show (startedMachine.scheduler.cpus 0).current ≠ some (startedMachine.scheduler.cpus 0).idleIdx
    rw [current, idle]
    decide
  · rintro _ ⟨⟩ _ task ⟨here, found⟩
    rw [current] at here
    cases here
    rw [found] at running
    rw [Option.some.inj running]
    exact nofun

/-- A user task is added, taken up by the CPU, exits, is switched away from and reaped. -/
theorem reapedOnce_exitBatch : ∃ moves last, Run reaperSystem oneCpu moves last ∧
    moves.flatMap collectedIn = [2] ∧ ReapedOnce moves last := by
  have boot : BootMachine oneCpu := .register .new 0 10 1 rfl List.not_mem_nil
  have tick : ∀ machine sp, Machine.Permitted machine (.onTick 0 sp true false) :=
    fun _ _ => permitted_of_free rfl fun _ wrong => by cases wrong
  have collect : leftMachine.Permitted .collectExited :=
    permitted_of_free rfl fun _ wrong => by cases wrong
  have added := step_next permitted_added (by decide +kernel)
  have started := step_next (tick addedMachine 0x500) (by decide +kernel)
  have exited := step_next permitted_exited (by decide +kernel)
  have left := step_next (tick exitedMachine 0x600) (by decide +kernel)
  have collects := step_next collect (by decide +kernel)
  have finishes : reaperSystem.step (leftMachine.next .collectExited) (.finish exitBatch)
      ((leftMachine.next .collectExited).finish exitBatch) := ⟨by decide +kernel, rfl⟩
  have run := Run.cons added (.cons started (.cons exited (.cons left (.cons collects
    (.cons finishes (.nil _))))))
  exact ⟨_, _, run, by decide +kernel, reapedOnce_of_run boot run⟩

/-! ### Panics -/

/-- In every reachable state, whatever a registered CPU calls is carried out. -/
theorem performs_of_reachable (reachable : Reachable operations scheduler) (operation : Operation)
    (registered : ∀ cpu, operation.caller = some cpu → (scheduler.cpus cpu).registered = true) :
    (scheduler.perform operation).isSome := by
  have invariant := exclusive_of_reachable reachable
  have current : ∀ cpu, operation.caller = some cpu → ∃ me task, scheduler.Current cpu me task := by
    intro cpu calls
    obtain ⟨me, task, here, _⟩ := invariant.runs cpu (registered cpu calls)
    exact ⟨me, task, here⟩
  cases operation with
  | addTask | collectExited => rfl
  | onTick cpu sp timer ipiAvailable =>
    rw [perform, Option.isSome_map, Scheduler.onTick]
    split
    · rfl
    · rename_i active
      simp only [Bool.or_eq_true, Bool.not_eq_true', not_or, Bool.not_eq_false] at active
      obtain ⟨saved, _, _, before, _, _, _, _, found, _⟩ := invariant.picked active.1 sp timer
      simp [before, (saved.pickNext_snd cpu).1, found]
  | sleepUntil cpu | markExited cpu | takeRequest cpu | recheckReply cpu =>
    obtain ⟨me, task, current, here⟩ := current cpu rfl
    simp only [perform, sleepUntil, markExited, takeRequest, recheckReply, currentIdx, current,
      here, Option.bind_eq_bind, Option.bind_some, Option.isSome_map]
    repeat' split
    all_goals rfl
  | postRequest cpu | postReply cpu =>
    obtain ⟨me, task, current, here⟩ := current cpu rfl
    simp only [perform, postRequest, postReply, currentIdx, current, here, Option.bind_eq_bind,
      Option.bind_some, Option.isSome_map]
    repeat' split
    any_goals rfl
    all_goals
      rename_i live
      obtain ⟨_, found, _⟩ := findLive_some live
      rw [found, Option.bind_some]
      split <;> rfl

/-- The first CPU sends a request to nobody. -/
theorem performs_postRequest :
    ((Scheduler.new.registerCpu 0 10 1).perform (.postRequest 0 5 Rqb.new)).isSome := by
  refine performs_of_reachable (.init (.register .new 0 10 1 rfl)) _ ?_
  rintro _ ⟨⟩
  rfl

/-! ### Rounds of the reaper -/

/-- What the reaper takes in some rounds, and the scheduler after them. -/
def reapRounds : Nat → Scheduler → List Reapable × Scheduler
  | 0, scheduler => ([], scheduler)
  | rounds + 1, scheduler =>
    let (taken, next) := scheduler.collectExited
    let (rest, last) := reapRounds rounds next
    (taken ++ rest, last)

/-- A walk over the table leaves the tasks that its batch has no room for. -/
theorem filter_collectTasks (out : List Reapable) (tasks : List TaskControlBlock)
    (fits : out.length ≤ reaperBatch) :
    (collectTasks out tasks).2.filter collectable =
      (tasks.filter collectable).drop (reaperBatch - out.length) := by
  induction tasks generalizing out with
  | nil => simp [collectTasks]
  | cons task rest ih =>
    unfold collectTasks
    by_cases collect : collectable task
    · rw [if_pos collect, filter_cons_of_pos collect]
      by_cases full : out.length = reaperBatch
      · simp [full, collect]
      · have room : reaperBatch - out.length = reaperBatch - (out.length + 1) + 1 := by omega
        have left := ih (out ++ [reapable task]) (by simp; omega)
        have released : collectable (release task) = false := by simp [collectable, release]
        rw [if_neg full, room]
        simp [left, released]
    · rw [if_neg collect, filter_cons_of_neg collect, filter_cons_of_neg collect]
      exact ih out fits

/-- Rounds of the reaper take what the exited tasks own that no CPU runs on, in the order of the
table, and overlook none. -/
theorem reapRounds_exact (rounds : Nat) (scheduler : Scheduler) :
    (reapRounds rounds scheduler).1 =
        ((scheduler.tasks.filter collectable).take (rounds * reaperBatch)).map reapable ∧
      (reapRounds rounds scheduler).2.tasks.filter collectable =
        (scheduler.tasks.filter collectable).drop (rounds * reaperBatch) := by
  induction rounds generalizing scheduler with
  | zero => simp [reapRounds]
  | succ rounds ih =>
    have left : scheduler.collectExited.2.tasks.filter collectable = _ :=
      filter_collectTasks [] scheduler.tasks (Nat.zero_le _)
    obtain ⟨rest, last⟩ := ih scheduler.collectExited.2
    rw [left] at rest last
    rw [Nat.succ_mul, Nat.add_comm (rounds * reaperBatch), take_add, ← drop_drop, map_append]
    refine ⟨?_, last⟩
    show scheduler.collectExited.1 ++ (reapRounds rounds scheduler.collectExited.2).1 = _
    rw [rest, (collectExited_spec scheduler).1]
    rfl

end Mmurtl.Scheduler

/-
This file proves that a saved context is never run by two CPUs.

The scheduler is taken as a transition system whose moves are its lock-protected
operations, issued by any CPU in any order. A task can be made ready while it is
still executing, table slots are recycled under the indices the CPUs store, and
the idle fallback of `pick_next` checks nothing, so exclusivity is a joint
invariant: every registered CPU and its current task name each other, idle tasks
stay at home and never exit, and a reaped slot is off every CPU.
-/

import Mmurtl.Library.Transition
import Mmurtl.Scheduler.Effects

namespace Mmurtl.Scheduler

open Transition Function

variable {cpu : CpuIndex} {index me : Nat} {task old : TaskControlBlock} {sp : UInt64}
  {timer ipiAvailable : Bool} {outcome : TickOutcome}

/-! ### The operations as a transition system -/

/-- The operations the scheduler runs under its lock. -/
inductive Operation where
  | onTick (cpu : CpuIndex) (sp : UInt64) (timer ipiAvailable : Bool)
  | addTask (task : TaskControlBlock)
  | postRequest (cpu : CpuIndex) (receiver : Nat) (msg : Rqb)
  | takeRequest (cpu : CpuIndex) (blocking : Bool)
  | postReply (cpu : CpuIndex) (sender : Nat) (msg : Rqb)
  | markExited (cpu : CpuIndex)
  | sleepUntil (cpu : CpuIndex) (deadline : UInt64)
  | recheckReply (cpu : CpuIndex)
  | collectExited

/-- The scheduler after an operation. -/
def perform (scheduler : Scheduler) : Operation → Option Scheduler
  | .onTick cpu sp timer ipiAvailable =>
      (scheduler.onTick cpu sp timer ipiAvailable).map TickOutcome.scheduler
  | .addTask task => some (scheduler.addTask task)
  | .postRequest cpu receiver msg => (scheduler.postRequest cpu receiver msg).map Prod.snd
  | .takeRequest cpu blocking => (scheduler.takeRequest cpu blocking).map Prod.snd
  | .postReply cpu sender msg => (scheduler.postReply cpu sender msg).map Prod.snd
  | .markExited cpu => (scheduler.markExited cpu).map Prod.snd
  | .sleepUntil cpu deadline => scheduler.sleepUntil cpu deadline
  | .recheckReply cpu => (scheduler.recheckReply cpu).map Prod.snd
  | .collectExited => some scheduler.collectExited.2

/-- What the callers promise: only prepared tasks are added, and an idle context never exits. -/
def Permitted (scheduler : Scheduler) : Operation → Prop
  | .addTask task => Prepared task
  | .markExited cpu => (scheduler.cpus cpu).current ≠ some (scheduler.cpus cpu).idleIdx
  | _ => True

/-- The states after distinct CPUs have registered. -/
inductive Boot : Scheduler → Prop where
  | new : Boot Scheduler.new
  | register {scheduler : Scheduler} (boot : Boot scheduler) (cpu : CpuIndex) (hwId : UInt32)
      (id : Nat) (fresh : (scheduler.cpus cpu).registered = false) :
      Boot (scheduler.registerCpu cpu hwId id)

/-- The lock-protected operations, in any order from any CPU. -/
def operations : LabelledSystem Scheduler Operation where
  init := Boot
  step scheduler operation next :=
    scheduler.Permitted operation ∧ scheduler.perform operation = some next

/-! ### The invariant -/

/-- Every registered CPU and its current task name each other, every running task is on a CPU,
idle tasks stay at home and reaped slots are off every CPU. -/
structure Exclusive (scheduler : Scheduler) : Prop where
  runs : ∀ cpu, (scheduler.cpus cpu).registered = true →
    ∃ (index : Nat) (task : TaskControlBlock), scheduler.Current cpu index task ∧
      task.onCpu = some cpu
  unregistered : ∀ cpu, (scheduler.cpus cpu).registered = false →
    (scheduler.cpus cpu).current = none
  owner : ∀ (index : Nat) task cpu,
    scheduler.tasks[index]? = some task → task.onCpu = some cpu →
    (scheduler.cpus cpu).current = some index
  running : ∀ (index : Nat) task, scheduler.tasks[index]? = some task →
    task.state = .running → task.onCpu ≠ none
  idle : ∀ cpu, (scheduler.cpus cpu).registered = true →
    ∃ task, scheduler.tasks[(scheduler.cpus cpu).idleIdx]? = some task ∧
      task.priority = priorityIdle ∧ task.pinnedCpu = some cpu ∧ task.state ≠ .exited ∧
      ∀ home, task.onCpu = some home → home = cpu
  reaped : ∀ (index : Nat) task, scheduler.tasks[index]? = some task →
    task.reaped = true → task.state = .exited ∧ task.onCpu = none

variable {scheduler : Scheduler}

/-- A CPU with a current task is registered. -/
theorem Exclusive.registered (invariant : Exclusive scheduler)
    (current : (scheduler.cpus cpu).current = some index) :
    (scheduler.cpus cpu).registered = true := by
  by_contra missing
  rw [invariant.unregistered cpu (by simpa using missing)] at current
  cases current

/-- The current task of a CPU is on that CPU. -/
theorem Exclusive.onCpu_of_current (invariant : Exclusive scheduler)
    (current : scheduler.Current cpu index task) : task.onCpu = some cpu := by
  obtain ⟨_, _, here, onCpu⟩ := invariant.runs cpu (invariant.registered current.1)
  rw [(current.unique here).2]
  exact onCpu

/-- Distinct CPUs run distinct tasks. -/
theorem Exclusive.injective (invariant : Exclusive scheduler) {first second : CpuIndex}
    (left : (scheduler.cpus first).current = some index)
    (right : (scheduler.cpus second).current = some index) : first = second := by
  obtain ⟨found, task, here, onFirst⟩ := invariant.runs first (invariant.registered left)
  have same : found = index := Option.some.inj (here.1.symm.trans left)
  subst same
  have onSecond : task.onCpu = some second := invariant.onCpu_of_current ⟨right, here.2⟩
  exact Option.some.inj (onFirst.symm.trans onSecond)

theorem Boot.exclusive (boot : Boot scheduler) : Exclusive scheduler := by
  induction boot with
  | new =>
    refine ⟨?_, ?_, ?_, ?_, ?_, ?_⟩ <;> intros <;> simp_all [Scheduler.new, PerCpu.empty]
  | @register scheduler boot cpu hwId id fresh invariant =>
    have keeps : ∀ {index : Nat} {task : TaskControlBlock},
        scheduler.tasks[index]? = some task →
        (scheduler.registerCpu cpu hwId id).tasks[index]? = some task := by
      intro index task found
      obtain ⟨bound, _⟩ := List.getElem?_eq_some_iff.mp found
      simp only [registerCpu, List.getElem?_append_left bound]
      exact found
    have adopted : (scheduler.registerCpu cpu hwId id).tasks[scheduler.tasks.length]? =
        some (TaskControlBlock.adoptCurrent id priorityIdle cpu) := by
      simp [registerCpu]
    have self : (scheduler.registerCpu cpu hwId id).cpus cpu =
        ⟨true, hwId, some scheduler.tasks.length, scheduler.tasks.length⟩ := by
      simp [registerCpu]
    have others : ∀ other, other ≠ cpu →
        (scheduler.registerCpu cpu hwId id).cpus other = scheduler.cpus other := by
      intro other different
      simp [registerCpu, update_of_ne different]
    refine ⟨?_, ?_, ?_, ?_, ?_, ?_⟩
    · intro other registered
      by_cases same : other = cpu
      · subst same
        exact ⟨_, _, ⟨by rw [self], adopted⟩, rfl⟩
      · rw [others other same] at registered
        obtain ⟨index, task, current, onCpu⟩ := invariant.runs other registered
        exact ⟨index, task, ⟨by rw [others other same]; exact current.1, keeps current.2⟩, onCpu⟩
    · intro other missing
      by_cases same : other = cpu
      · subst same
        rw [self] at missing
        cases missing
      · rw [others other same] at missing ⊢
        exact invariant.unregistered other missing
    · intro index task other found onCpu
      rcases concat_cases found with old | ⟨rfl, rfl⟩
      · have current := invariant.owner index task other old onCpu
        have different : other ≠ cpu := by
          rintro rfl
          rw [invariant.registered current] at fresh
          cases fresh
        rw [others other different]
        exact current
      · cases onCpu
        rw [self]
    · intro index task found running
      rcases concat_cases found with old | ⟨rfl, rfl⟩
      · exact invariant.running index task old running
      · simp [TaskControlBlock.adoptCurrent]
    · intro other registered
      by_cases same : other = cpu
      · subst same
        rw [self]
        refine ⟨_, adopted, rfl, rfl, by simp [TaskControlBlock.adoptCurrent], ?_⟩
        intro _ onCpu
        exact (Option.some.inj onCpu).symm
      · rw [others other same] at registered ⊢
        obtain ⟨task, found, rest⟩ := invariant.idle other registered
        exact ⟨task, keeps found, rest⟩
    · intro index task found reaped
      rcases concat_cases found with old | ⟨rfl, rfl⟩
      · exact invariant.reaped index task old reaped
      · cases reaped

/-! ### Operations that leave the CPUs alone -/

section Related

variable {α β : Type} {relation : α → β → Prop} {old : Option α} {new : Option β}

theorem rel_some_left {value : α} (related : Option.Rel relation old new)
    (found : old = some value) :
    ∃ other, new = some other ∧ relation value other := by
  subst found
  cases related with
  | some holds => exact ⟨_, rfl, holds⟩

theorem rel_some_right {value : β} (related : Option.Rel relation old new)
    (found : new = some value) :
    ∃ other, old = some other ∧ relation other value := by
  subst found
  cases related with
  | some holds => exact ⟨_, rfl, holds⟩

theorem rel_map {change : α → β}
    (related : ∀ value, old = some value → relation value (change value)) :
    Option.Rel relation old (old.map change) := by
  cases old with
  | none => exact .none
  | some value => exact .some (related value rfl)

theorem rel_mono {wider : α → β → Prop} (related : Option.Rel relation old new)
    (weaker : ∀ first second, relation first second → wider first second) :
    Option.Rel wider old new := by
  cases related with
  | none => exact .none
  | some holds => exact .some (weaker _ _ holds)

theorem rel_map_eq {γ : Type} {first : α → γ} {second : β → γ}
    (related : Option.Rel relation old new)
    (same : ∀ left right, relation left right → second right = first left) :
    new.map second = old.map first := by
  cases related with
  | none => rfl
  | some holds => exact congrArg some (same _ _ holds)

end Related

/-- The two schedulers have the same CPU records, and their tables are related entry by entry. -/
def Pointwise (relation : Nat → TaskControlBlock → TaskControlBlock → Prop)
    (scheduler next : Scheduler) : Prop :=
  next.cpus = scheduler.cpus ∧
    ∀ index, Option.Rel (relation index) scheduler.tasks[index]? next.tasks[index]?

section Pointwise

variable {relation : Nat → TaskControlBlock → TaskControlBlock → Prop} {next : Scheduler}

theorem Pointwise.before (related : Pointwise relation scheduler next)
    (found : next.tasks[index]? = some task) :
    ∃ old, scheduler.tasks[index]? = some old ∧ relation index old task :=
  rel_some_right (related.2 index) found

theorem Pointwise.after (related : Pointwise relation scheduler next)
    (found : scheduler.tasks[index]? = some task) :
    ∃ new, next.tasks[index]? = some new ∧ relation index task new :=
  rel_some_left (related.2 index) found

/-- A change of the table that maps every entry on its own relates the two tables. -/
theorem pointwise_of_map (change : Nat → TaskControlBlock → TaskControlBlock)
    (cpus : next.cpus = scheduler.cpus)
    (tasks : ∀ index, next.tasks[index]? = scheduler.tasks[index]?.map (change index))
    (related : ∀ index task, scheduler.tasks[index]? = some task →
      relation index task (change index task)) :
    Pointwise relation scheduler next := by
  refine ⟨cpus, fun index => ?_⟩
  rw [tasks index]
  exact rel_map (related index)

end Pointwise

/-- What an operation that leaves the CPUs alone may do to one task without touching
exclusivity: it stays where it is, does not start to run, and exits only if it is no idle task. -/
structure Kept (scheduler : Scheduler) (index : Nat) (old new : TaskControlBlock) : Prop where
  onCpu : new.onCpu = old.onCpu
  pinnedCpu : new.pinnedCpu = old.pinnedCpu
  priority : new.priority = old.priority
  running : new.state = .running → old.state = .running
  exited : new.state = .exited → old.state = .exited ∨
    ∀ cpu, (scheduler.cpus cpu).registered = true → (scheduler.cpus cpu).idleIdx ≠ index
  reaped : new.reaped = true → new.state = .exited ∧ new.onCpu = none

section

variable (invariant : Exclusive scheduler)
include invariant

theorem Kept.refl (found : scheduler.tasks[index]? = some task) : Kept scheduler index task task :=
  ⟨rfl, rfl, rfl, id, Or.inl, invariant.reaped index task found⟩

/-- Exclusivity is kept where the slots that are in use are, and where what the other slots
hold was only prepared. -/
theorem Exclusive.of_slots {next : Scheduler} (cpus : next.cpus = scheduler.cpus)
    (after : ∀ index task, scheduler.tasks[index]? = some task →
      (task.state ≠ .exited ∨ task.onCpu ≠ none) →
      ∃ new, next.tasks[index]? = some new ∧ Kept scheduler index task new)
    (before : ∀ index new, next.tasks[index]? = some new → Prepared new ∨
      ∃ old, scheduler.tasks[index]? = some old ∧ Kept scheduler index old new) :
    Exclusive next := by
  refine ⟨?_, ?_, ?_, ?_, ?_, ?_⟩
  · intro cpu registered
    rw [cpus] at registered
    obtain ⟨index, task, current, onCpu⟩ := invariant.runs cpu registered
    obtain ⟨new, found, kept⟩ := after index task current.2 (Or.inr (by simp [onCpu]))
    exact ⟨index, new, ⟨by rw [cpus]; exact current.1, found⟩, by rw [kept.onCpu, onCpu]⟩
  · intro cpu missing
    rw [cpus] at missing ⊢
    exact invariant.unregistered cpu missing
  · intro index task cpu found onCpu
    rcases before index task found with prepared | ⟨old, earlier, kept⟩
    · cases prepared.fields.2.1.symm.trans onCpu
    · rw [cpus]
      exact invariant.owner index old cpu earlier (by rw [← kept.onCpu]; exact onCpu)
  · intro index task found running
    rcases before index task found with prepared | ⟨old, earlier, kept⟩
    · cases prepared.fields.1.symm.trans running
    · rw [kept.onCpu]
      exact invariant.running index old earlier (kept.running running)
  · intro cpu registered
    rw [cpus] at registered ⊢
    obtain ⟨task, found, priority, pinned, alive, home⟩ := invariant.idle cpu registered
    obtain ⟨new, found, kept⟩ := after _ task found (Or.inl alive)
    refine ⟨new, found, by rw [kept.priority, priority], by rw [kept.pinnedCpu, pinned], ?_, ?_⟩
    · intro exited
      rcases kept.exited exited with old | foreign
      · exact alive old
      · exact foreign cpu registered rfl
    · intro other onCpu
      exact home other (by rw [← kept.onCpu]; exact onCpu)
  · intro index task found reaped
    rcases before index task found with prepared | ⟨_, _, kept⟩
    · cases prepared.fields.2.2.2.2.2.symm.trans reaped
    · exact kept.reaped reaped

theorem Exclusive.of_pointwise {next : Scheduler}
    (related : Pointwise (Kept scheduler) scheduler next) : Exclusive next :=
  invariant.of_slots related.1 (fun _ _ found _ => related.after found)
    fun _ _ found => Or.inr (related.before found)

/-- Changing one task in place keeps exclusivity if the task is kept. -/
theorem Exclusive.modify {change : TaskControlBlock → TaskControlBlock}
    (kept : ∀ old, scheduler.tasks[index]? = some old → Kept scheduler index old (change old)) :
    Exclusive (scheduler.modifyTask index change) := by
  refine invariant.of_pointwise (pointwise_of_map _ rfl (scheduler.modifyTask_map index change)
    fun other old found => ?_)
  by_cases same : index = other
  · subst same
    rw [if_pos rfl]
    exact kept old found
  · rw [if_neg same]
    exact Kept.refl invariant found

/-- A task on a CPU has not been reaped. -/
theorem Exclusive.not_reaped (current : scheduler.Current cpu me task) : task.reaped = false := by
  refine (Bool.not_eq_true _).mp fun reaped => ?_
  have away := (invariant.reaped me task current.2 reaped).2
  rw [invariant.onCpu_of_current current] at away
  cases away

/-- Changing the state of the current task to a blocked one keeps exclusivity. -/
theorem Exclusive.modify_current (current : scheduler.Current cpu me task)
    (change : TaskControlBlock → TaskControlBlock) (onCpu : (change task).onCpu = task.onCpu)
    (pinned : (change task).pinnedCpu = task.pinnedCpu)
    (priority : (change task).priority = task.priority)
    (reaped : (change task).reaped = task.reaped)
    (running : (change task).state = .running → task.state = .running)
    (exited : (change task).state = .exited → task.state = .exited) :
    Exclusive (scheduler.modifyTask me change) := by
  refine invariant.modify fun old found => ?_
  cases current.2.symm.trans found
  refine ⟨onCpu, pinned, priority, running, fun gone => Or.inl (exited gone), fun taken => ?_⟩
  rw [reaped, invariant.not_reaped current] at taken
  cases taken

/-! ### Requests, replies and exits -/

theorem kept_rouse {new : TaskControlBlock} {expected : TaskState}
    (found : scheduler.tasks[index]? = some old) (onCpu : new.onCpu = old.onCpu)
    (pinned : new.pinnedCpu = old.pinnedCpu) (priority : new.priority = old.priority)
    (reaped : new.reaped = old.reaped) (state : new.state = old.state)
    (alive : expected ≠ .exited) : Kept scheduler index old (rouse expected new) := by
  have taken := invariant.reaped index old found
  unfold rouse
  split
  · rename_i matched
    refine ⟨onCpu, pinned, priority, ?_, ?_, ?_⟩
    · intro running
      cases running
    · intro exited
      cases exited
    · intro gone
      have exited := (taken (by rw [← reaped]; exact gone)).1
      rw [← state, matched] at exited
      exact absurd exited alive
  · refine ⟨onCpu, pinned, priority, fun running => by rw [← state]; exact running,
      fun exited => Or.inl (by rw [← state]; exact exited), ?_⟩
    intro gone
    rw [state, onCpu]
    exact taken (by rw [← reaped]; exact gone)

theorem Exclusive.deliver (index : Nat) (msg : Rqb) :
    Exclusive (scheduler.modifyTask index (deliver msg)) :=
  invariant.modify fun _ found => kept_rouse invariant found rfl rfl rfl rfl rfl (by decide)

/-- An accepted request keeps the invariant. -/
theorem Exclusive.request (current : scheduler.Current cpu me task) (apart : index ≠ me) (msg : Rqb)
    (receiver : Nat) :
    Exclusive ((scheduler.modifyTask index (Scheduler.deliver msg)).modifyTask me
      (block receiver)) := by
  have still : (scheduler.modifyTask index (Scheduler.deliver msg)).Current cpu me task := by
    refine ⟨current.1, ?_⟩
    rw [modifyTask_task, if_neg apart]
    exact current.2
  exact (invariant.deliver index msg).modify_current still (block receiver) rfl rfl rfl rfl
    (by simp [block]) (by simp [block])

theorem Exclusive.answer (index : Nat) (msg : Rqb) :
    Exclusive (scheduler.modifyTask index (answer msg)) :=
  invariant.modify fun _ found => kept_rouse invariant found rfl rfl rfl rfl rfl (by decide)

/-- The exit of a task that is no idle task keeps exclusivity. -/
theorem Exclusive.exit (current : scheduler.Current cpu me task)
    (busy : (scheduler.cpus cpu).current ≠ some (scheduler.cpus cpu).idleIdx) :
    Exclusive { scheduler with
      tasks := (scheduler.tasks.modify me exit).map (abort task.id) } := by
  have foreign : ∀ other, (scheduler.cpus other).registered = true →
      (scheduler.cpus other).idleIdx ≠ me := by
    intro other registered same
    obtain ⟨idle, found, _, _, _, home⟩ := invariant.idle other registered
    rw [same, current.2] at found
    cases found
    have here := home cpu (invariant.onCpu_of_current current)
    subst here
    exact busy (by rw [same]; exact current.1)
  refine invariant.of_pointwise (pointwise_of_map _ rfl (exit_lookup scheduler.tasks me task.id)
    fun other old found => ?_)
  by_cases same : me = other
  · subst same
    cases current.2.symm.trans found
    rw [if_pos rfl, abort_exit]
    refine ⟨rfl, rfl, rfl, nofun, fun _ => Or.inr foreign, fun reaped => ?_⟩
    cases (invariant.not_reaped current).symm.trans reaped
  · rw [if_neg same]
    unfold abort
    split
    · exact kept_rouse invariant found rfl rfl rfl rfl rfl (by decide)
    · exact Kept.refl invariant found

/-! ### The task table -/

theorem Exclusive.addTask (prepared : Prepared task) : Exclusive (scheduler.addTask task) := by
  obtain ⟨slot, added, free, elsewhere⟩ := scheduler.addTask_task task
  refine invariant.of_slots (scheduler.addTask_cpus task) (fun index old found live => ?_)
    fun index new found => ?_
  · refine ⟨old, ?_, Kept.refl invariant found⟩
    rw [elsewhere index]
    · exact found
    · rintro rfl
      obtain ⟨exited, reaped⟩ := free old found
      exact live.elim (absurd exited)
        (absurd (invariant.reaped index old found reaped).2)
  · rcases origin_of_slot added elsewhere found with ⟨_, rfl⟩ | ⟨_, earlier⟩
    · exact Or.inl prepared
    · exact Or.inr ⟨new, earlier, Kept.refl invariant earlier⟩

theorem Exclusive.collectExited : Exclusive scheduler.collectExited.2 := by
  refine invariant.of_pointwise ⟨rfl, fun index => ?_⟩
  have here := collectTasks_task [] scheduler.tasks index
  rcases here with same | ⟨task, found, collect, released⟩
  · have same : scheduler.collectExited.2.tasks[index]? = scheduler.tasks[index]? := same
    rw [same]
    cases found : scheduler.tasks[index]? with
    | none => exact .none
    | some task => exact .some (Kept.refl invariant found)
  · have released : scheduler.collectExited.2.tasks[index]? = some (release task) := released
    rw [found, released]
    simp only [collectable, Bool.and_eq_true, beq_iff_eq, Option.isNone_iff_eq_none] at collect
    exact .some ⟨rfl, rfl, rfl, id, fun _ => Or.inl collect.1.1, fun _ => ⟨collect.1.1, collect.2⟩⟩

end

/-! ### Context switches -/

/-- What a context switch does to one task before it picks. -/
def setAside (scheduler : Scheduler) (cpu : CpuIndex) (sp : UInt64) (timer : Bool) (index : Nat)
    (task : TaskControlBlock) : TaskControlBlock :=
  if (scheduler.cpus cpu).current = some index then
    save sp timer (wake (scheduler.countTick cpu timer).jiffies task)
  else wake (scheduler.countTick cpu timer).jiffies task

theorem countTick_tasks (scheduler : Scheduler) (cpu : CpuIndex) (timer : Bool) :
    (scheduler.countTick cpu timer).tasks = scheduler.tasks := by
  unfold countTick
  split <;> rfl

theorem countTick_cpus (scheduler : Scheduler) (cpu : CpuIndex) (timer : Bool) :
    (scheduler.countTick cpu timer).cpus = scheduler.cpus := by
  unfold countTick
  split <;> rfl

/-- Setting the current task aside changes neither the CPUs, the count of tasks being released
nor the cursor. -/
theorem beforePick_kept {saved : Scheduler}
    (before : scheduler.beforePick cpu sp timer = some saved) :
    saved.cpus = scheduler.cpus ∧ saved.reaping = scheduler.reaping ∧
      saved.rrCursor = scheduler.rrCursor ∧ saved.tasks.length = scheduler.tasks.length := by
  have woken : (scheduler.countTick cpu timer).wakeSleepers.cpus = scheduler.cpus ∧
      (scheduler.countTick cpu timer).wakeSleepers.reaping = scheduler.reaping ∧
      (scheduler.countTick cpu timer).wakeSleepers.rrCursor = scheduler.rrCursor ∧
      (scheduler.countTick cpu timer).wakeSleepers.tasks.length = scheduler.tasks.length := by
    unfold wakeSleepers countTick
    split <;> exact ⟨rfl, rfl, rfl, List.length_map _⟩
  obtain ⟨cpus, reaping, cursor, length⟩ := woken
  unfold beforePick saveCurrent at before
  split at before
  · cases before
    exact ⟨cpus, reaping, cursor, length⟩
  · split at before
    · cases before
      exact ⟨cpus, reaping, cursor, (List.length_modify ..).trans length⟩
    · cases before

/-- A CPU whose current task is in the table sets it aside without a panic. -/
theorem beforePick_some (current : scheduler.Current cpu me task) (sp : UInt64) (timer : Bool) :
    ∃ saved, scheduler.beforePick cpu sp timer = some saved ∧ saved.cpus = scheduler.cpus ∧
      ∀ index, saved.tasks[index]? =
        scheduler.tasks[index]?.map (scheduler.setAside cpu sp timer index) := by
  obtain ⟨bound, _⟩ := List.getElem?_eq_some_iff.mp current.2
  have inside : me < (scheduler.countTick cpu timer).wakeSleepers.tasks.length := by
    simp only [wakeSleepers, List.length_map, countTick_tasks]
    exact bound
  have record : ((scheduler.countTick cpu timer).wakeSleepers.cpus cpu).current = some me := by
    simp only [wakeSleepers, countTick_cpus]
    exact current.1
  refine ⟨(scheduler.countTick cpu timer).wakeSleepers.modifyTask me (save sp timer), ?_, ?_, ?_⟩
  · simp only [beforePick, saveCurrent, record, inside, if_true]
  · simp only [modifyTask_cpus, wakeSleepers, countTick_cpus]
  · intro index
    simp only [modifyTask_task, wakeSleepers, List.getElem?_map, countTick_tasks]
    by_cases same : me = index
    · subst same
      rw [if_pos rfl, Option.map_map]
      refine congrArg (Option.map · _) (funext fun old => ?_)
      simp [setAside, current.1]
    · rw [if_neg same]
      refine congrArg (Option.map · _) (funext fun old => ?_)
      simp [setAside, current.1, same]

theorem wake_onCpu (now : UInt64) (task : TaskControlBlock) :
    (wake now task).onCpu = task.onCpu := by
  unfold wake
  split <;> rfl

section

variable (scheduler : Scheduler) (cpu : CpuIndex) (sp : UInt64) (timer : Bool) (index : Nat)
  (task : TaskControlBlock)

theorem setAside_kept :
    (scheduler.setAside cpu sp timer index task).pinnedCpu = task.pinnedCpu ∧
      (scheduler.setAside cpu sp timer index task).priority = task.priority ∧
      (scheduler.setAside cpu sp timer index task).reaped = task.reaped := by
  unfold setAside save wake
  split <;> split <;> exact ⟨rfl, rfl, rfl⟩

theorem setAside_onCpu :
    (scheduler.setAside cpu sp timer index task).onCpu =
      if (scheduler.cpus cpu).current = some index then none else task.onCpu := by
  unfold setAside
  split
  · rfl
  · exact wake_onCpu _ _

/-- Setting aside neither exits a task nor brings an exited one back. -/
theorem setAside_exited :
    (scheduler.setAside cpu sp timer index task).state = .exited ↔ task.state = .exited := by
  unfold setAside save wake due
  by_cases current : (scheduler.cpus cpu).current = some index <;>
    cases state : task.state <;> simp [current, state] <;> split <;> simp [state]

theorem setAside_fields :
    (scheduler.setAside cpu sp timer index task).id = task.id ∧
      (scheduler.setAside cpu sp timer index task).inbox = task.inbox ∧
      (scheduler.setAside cpu sp timer index task).reply = task.reply ∧
      (scheduler.setAside cpu sp timer index task).waitFor = task.waitFor := by
  unfold setAside save wake
  split <;> split <;> exact ⟨rfl, rfl, rfl, rfl⟩

/-- Setting aside keeps a task's state, except that the interrupted task becomes ready and a
due sleeper wakes. -/
theorem setAside_state :
    (scheduler.setAside cpu sp timer index task).state = task.state ∧
        (task.state = .running → (scheduler.cpus cpu).current ≠ some index) ∨
      (scheduler.setAside cpu sp timer index task).state = .ready ∧
        (task.state = .running ∧ (scheduler.cpus cpu).current = some index ∨
          task.state = .sleeping) := by
  unfold setAside save wake due
  by_cases current : (scheduler.cpus cpu).current = some index <;>
    cases state : task.state <;> simp [current, state] <;> split <;> simp [state]

end

/-- A task set aside is running only if it was and is not the one being switched out. -/
theorem setAside_running (running : (scheduler.setAside cpu sp timer index task).state = .running) :
    task.state = .running ∧ (scheduler.cpus cpu).current ≠ some index := by
  rcases setAside_state scheduler cpu sp timer index task with ⟨same, away⟩ | ⟨ready, _⟩
  · rw [same] at running
    exact ⟨running, away running⟩
  · cases ready.symm.trans running

/-- A picked task is ready, off every CPU and no idle task, or it is the CPU's idle task. -/
theorem pickNext_cases (scheduler : Scheduler) (cpu : CpuIndex) :
    (∃ task, scheduler.tasks[(scheduler.pickNext cpu).1]? = some task ∧ task.state = .ready ∧
        task.onCpu = none ∧ task.priority ≠ priorityIdle ∧
        ∀ pinned, task.pinnedCpu = some pinned → pinned = cpu) ∨
      (scheduler.pickNext cpu).1 = (scheduler.cpus cpu).idleIdx := by
  unfold pickNext
  simp only
  split
  · rename_i index found
    have holds := List.find?_some found
    cases here : scheduler.tasks[index]? with
    | none => simp [here] at holds
    | some task =>
      simp only [here, Option.any_some, pickable, Bool.and_eq_true, beq_iff_eq, bne_iff_ne,
        Option.isNone_iff_eq_none, Option.all_eq_true_iff_get] at holds
      refine Or.inl ⟨task, rfl, holds.1.1.1, holds.1.1.2, holds.1.2, fun pinned same => ?_⟩
      have pin := holds.2 (by rw [same]; rfl)
      simpa [same] using pin
  · exact Or.inr rfl

theorem pickNext_snd (scheduler : Scheduler) (cpu : CpuIndex) :
    (scheduler.pickNext cpu).2.tasks = scheduler.tasks ∧
      (scheduler.pickNext cpu).2.cpus = scheduler.cpus ∧
      (scheduler.pickNext cpu).2.reaping = scheduler.reaping := by
  unfold pickNext
  simp only
  split <;> exact ⟨rfl, rfl, rfl⟩

/-- The task a context switch picks is in the table, has not exited and is off every CPU. -/
theorem Exclusive.picked (invariant : Exclusive scheduler)
    (registered : (scheduler.cpus cpu).registered = true) (sp : UInt64) (timer : Bool) :
    ∃ saved task old, scheduler.beforePick cpu sp timer = some saved ∧ saved.cpus = scheduler.cpus ∧
      (∀ index, saved.tasks[index]? =
        scheduler.tasks[index]?.map (scheduler.setAside cpu sp timer index)) ∧
      scheduler.tasks[(saved.pickNext cpu).1]? = some old ∧
      task = scheduler.setAside cpu sp timer (saved.pickNext cpu).1 old ∧
      saved.tasks[(saved.pickNext cpu).1]? = some task ∧ task.onCpu = none ∧ task.state ≠ .exited ∧
      (task.state = .ready ∨ (saved.pickNext cpu).1 = (scheduler.cpus cpu).idleIdx) ∧
      ∀ home, (scheduler.cpus home).registered = true →
        (saved.pickNext cpu).1 = (scheduler.cpus home).idleIdx → home = cpu := by
  obtain ⟨_, current, here, onCpu⟩ := invariant.runs cpu registered
  obtain ⟨saved, before, cpus, tasks⟩ := beforePick_some here sp timer
  have idleOf : ∀ home, (scheduler.cpus home).registered = true →
      (saved.pickNext cpu).1 = (scheduler.cpus home).idleIdx →
      ∃ old, scheduler.tasks[(saved.pickNext cpu).1]? = some old ∧
        saved.tasks[(saved.pickNext cpu).1]? =
          some (scheduler.setAside cpu sp timer (saved.pickNext cpu).1 old) ∧
        old.priority = priorityIdle ∧ old.pinnedCpu = some home ∧ old.state ≠ .exited ∧
        ∀ other, old.onCpu = some other → other = home := by
    intro home homeRegistered same
    obtain ⟨idle, found, priority, pinned, alive, only⟩ := invariant.idle home homeRegistered
    rw [← same] at found
    exact ⟨idle, found, by rw [tasks, found]; rfl, priority, pinned, alive, only⟩
  rcases saved.pickNext_cases cpu with ⟨task, found, ready, off, busy, _⟩ | fallback
  · have source := tasks (saved.pickNext cpu).1
    rw [found] at source
    obtain ⟨old, oldFound, rfl⟩ := Option.map_eq_some_iff.mp source.symm
    refine ⟨saved, _, old, before, cpus, tasks, oldFound, rfl, found, off,
      by rw [ready]; decide, Or.inl ready, fun home homeRegistered same => ?_⟩
    obtain ⟨idle, idleFound, _, priority, _⟩ := idleOf home homeRegistered same
    rw [oldFound] at idleFound
    cases idleFound
    rw [(setAside_kept ..).2.1] at busy
    exact absurd priority busy
  · rw [cpus] at fallback
    obtain ⟨old, oldFound, newFound, _, pinned, alive, only⟩ :=
      idleOf cpu registered fallback
    refine ⟨saved, _, old, before, cpus, tasks, oldFound, rfl, newFound, ?_, ?_, Or.inr fallback,
      fun home homeRegistered same => ?_⟩
    · rw [setAside_onCpu]
      split
      · rfl
      · rename_i elsewhere
        cases onOther : old.onCpu with
        | none => rfl
        | some other =>
          have home := only other onOther
          subst home
          exact absurd (invariant.owner _ old other oldFound onOther) elsewhere
    · rw [Ne, setAside_exited]
      exact alive
    · obtain ⟨_, idleFound, _, _, homePinned, _⟩ := idleOf home homeRegistered same
      rw [oldFound] at idleFound
      cases idleFound
      exact Option.some.inj (homePinned.symm.trans pinned)

/-- A context switch does nothing on an unregistered CPU; on a registered one it sets the
current task aside and hands the CPU to the picked one. -/
theorem onTick_cases (ticked : scheduler.onTick cpu sp timer ipiAvailable = some outcome) :
    ((scheduler.cpus cpu).registered = false ∨ scheduler.tasks = []) ∧
        outcome.scheduler = scheduler ∨ (scheduler.cpus cpu).registered = true ∧ ∃ saved,
        scheduler.beforePick cpu sp timer = some saved ∧
        outcome.scheduler = (saved.pickNext cpu).2.dispatch cpu (saved.pickNext cpu).1 := by
  unfold onTick at ticked
  by_cases inactive : (!(scheduler.cpus cpu).registered || scheduler.tasks.isEmpty) = true
  · rw [if_pos inactive] at ticked
    cases ticked
    simp only [Bool.or_eq_true, Bool.not_eq_true', List.isEmpty_iff] at inactive
    exact Or.inl ⟨inactive, rfl⟩
  · rw [if_neg inactive] at ticked
    simp only [Bool.or_eq_true, Bool.not_eq_true', List.isEmpty_iff, not_or,
      Bool.not_eq_false] at inactive
    simp only [Option.bind_eq_bind, Option.bind_eq_some_iff] at ticked
    obtain ⟨saved, before, _, _, same⟩ := ticked
    cases same
    exact Or.inr ⟨inactive.1, saved, before, rfl⟩

/-- The table after a context switch of a registered CPU. -/
theorem dispatch_tasks {saved : Scheduler} (tasks : ∀ index, saved.tasks[index]? =
      scheduler.tasks[index]?.map (scheduler.setAside cpu sp timer index)) (index : Nat) :
    ((saved.pickNext cpu).2.dispatch cpu (saved.pickNext cpu).1).tasks[index]? =
      scheduler.tasks[index]?.map fun task =>
        if index = (saved.pickNext cpu).1 then
          resume cpu (scheduler.setAside cpu sp timer index task)
        else scheduler.setAside cpu sp timer index task := by
  have picked := (saved.pickNext_snd cpu).1
  show (((saved.pickNext cpu).2.modifyTask (saved.pickNext cpu).1 (resume cpu)).tasks)[index]? = _
  rw [modifyTask_task, picked, tasks index]
  by_cases same : (saved.pickNext cpu).1 = index
  · rw [if_pos same, Option.map_map]
    refine congrArg (Option.map · _) (funext fun task => ?_)
    rw [if_pos same.symm]
    rfl
  · rw [if_neg same]
    refine congrArg (Option.map · _) (funext fun task => ?_)
    rw [if_neg (Ne.symm same)]

theorem dispatch_cpus (scheduler : Scheduler) (cpu : CpuIndex) (next : Nat) :
    (scheduler.dispatch cpu next).cpus =
      Function.update scheduler.cpus cpu { scheduler.cpus cpu with current := some next } := rfl

section

variable (invariant : Exclusive scheduler)
  (ticked : scheduler.onTick cpu sp timer ipiAvailable = some outcome)
include invariant ticked

/-- A context switch does nothing on an unregistered CPU; on a registered one it sets the tasks
aside and gives the CPU to one that has not exited and is off every CPU. -/
theorem Exclusive.switched :
    ((scheduler.cpus cpu).registered = false ∨ scheduler.tasks = []) ∧
        outcome.scheduler = scheduler ∨
      (scheduler.cpus cpu).registered = true ∧ ∃ (choice : Nat) (task old : TaskControlBlock),
        scheduler.tasks[choice]? = some old ∧ task = scheduler.setAside cpu sp timer choice old ∧
        task.onCpu = none ∧ task.state ≠ .exited ∧
        (task.state = .ready ∨ choice = (scheduler.cpus cpu).idleIdx) ∧
        (∀ home, (scheduler.cpus home).registered = true →
          choice = (scheduler.cpus home).idleIdx → home = cpu) ∧
        (∀ index, outcome.scheduler.tasks[index]? = scheduler.tasks[index]?.map fun task =>
          if index = choice then resume cpu (scheduler.setAside cpu sp timer index task)
          else scheduler.setAside cpu sp timer index task) ∧
        outcome.scheduler.cpus = Function.update scheduler.cpus cpu
          { scheduler.cpus cpu with current := some choice } := by
  rcases onTick_cases ticked with inactive | ⟨registered, saved, before, after⟩
  · exact Or.inl inactive
  obtain ⟨saved', task, old, before', cpus, tasks, oldFound, task_eq, _, off, alive, picked,
    home⟩ := invariant.picked registered sp timer
  have saved_eq : saved = saved' := Option.some.inj (before.symm.trans before')
  subst saved_eq
  refine Or.inr ⟨registered, (saved.pickNext cpu).1, task, old, oldFound, task_eq, off, alive,
    picked, home, ?_, ?_⟩
  · rw [after]
    exact dispatch_tasks tasks
  · rw [after, dispatch_cpus, (saved.pickNext_snd cpu).2.1, cpus]

/-- A context switch keeps exclusivity. -/
theorem Exclusive.onTick : Exclusive outcome.scheduler := by
  rcases invariant.switched ticked with ⟨_, same⟩ | ⟨registered, choice, task, old, oldFound,
    task_eq, off, alive, _, onlyHere, table, records⟩
  · rw [same]
    exact invariant
  generalize outcome.scheduler = next at *
  have self : next.cpus cpu = { scheduler.cpus cpu with current := some choice } := by
    rw [records, update_self]
  have others : ∀ other, other ≠ cpu → next.cpus other = scheduler.cpus other := by
    intro other different
    rw [records, update_of_ne different]
  have notPicked : ∀ other, other ≠ cpu → (scheduler.cpus other).current ≠ some choice := by
    intro other different owns
    have otherOn : old.onCpu = some other := invariant.onCpu_of_current ⟨owns, oldFound⟩
    rw [task_eq, setAside_onCpu] at off
    split at off
    · rename_i mine
      exact different (invariant.injective owns mine)
    · rw [otherOn] at off
      cases off
  have elsewhere : ∀ {other : CpuIndex} {index : Nat}, other ≠ cpu →
      (scheduler.cpus other).current = some index →
      (scheduler.cpus cpu).current ≠ some index := by
    intro other index different owns mine
    exact different (invariant.injective owns mine)
  have origin : ∀ {index : Nat} {new : TaskControlBlock}, next.tasks[index]? = some new →
      ∃ before, scheduler.tasks[index]? = some before ∧
        (index = choice ∧ new = resume cpu (scheduler.setAside cpu sp timer index before) ∨
          index ≠ choice ∧ new = scheduler.setAside cpu sp timer index before) := by
    intro index new newFound
    rw [table] at newFound
    obtain ⟨before, source, same⟩ := Option.map_eq_some_iff.mp newFound
    refine ⟨before, source, ?_⟩
    by_cases chosen : index = choice
    · rw [if_pos chosen] at same
      exact Or.inl ⟨chosen, same.symm⟩
    · rw [if_neg chosen] at same
      exact Or.inr ⟨chosen, same.symm⟩
  refine ⟨?_, ?_, ?_, ?_, ?_, ?_⟩
  · intro other otherRegistered
    by_cases same : other = cpu
    · subst same
      refine ⟨choice, resume other task, ⟨by rw [self], ?_⟩, rfl⟩
      rw [table, oldFound, task_eq]
      simp
    · rw [others other same] at otherRegistered
      obtain ⟨index, running, owns, onOther⟩ := invariant.runs other otherRegistered
      have different : index ≠ choice := by
        rintro rfl
        exact notPicked other same owns.1
      refine ⟨index, scheduler.setAside cpu sp timer index running,
        ⟨by rw [others other same]; exact owns.1, ?_⟩, ?_⟩
      · rw [table, owns.2]
        simp [different]
      · rw [setAside_onCpu, if_neg (elsewhere same owns.1), onOther]
  · intro other missing
    by_cases same : other = cpu
    · subst same
      rw [self] at missing
      rw [registered] at missing
      cases missing
    · rw [others other same] at missing ⊢
      exact invariant.unregistered other missing
  · intro index new other newFound onOther
    obtain ⟨before, source, ⟨chosen, rfl⟩ | ⟨_, rfl⟩⟩ := origin newFound
    · have home : other = cpu := (Option.some.inj onOther).symm
      subst home
      rw [self, chosen]
    · rw [setAside_onCpu] at onOther
      split at onOther
      · cases onOther
      · rename_i notMine
        have owns := invariant.owner index before other source onOther
        have different : other ≠ cpu := by
          rintro rfl
          exact notMine owns
        rw [others other different]
        exact owns
  · intro index new newFound running
    obtain ⟨before, source, ⟨_, rfl⟩ | ⟨_, rfl⟩⟩ := origin newFound
    · simp [resume]
    · obtain ⟨wasRunning, notMine⟩ := setAside_running running
      rw [setAside_onCpu, if_neg notMine]
      exact invariant.running index before source wasRunning
  · intro home homeRegistered
    have homeRecord : (scheduler.cpus home).registered = true ∧
        (next.cpus home).idleIdx = (scheduler.cpus home).idleIdx := by
      by_cases same : home = cpu
      · subst same
        exact ⟨registered, by rw [self]⟩
      · rw [others home same] at homeRegistered ⊢
        exact ⟨homeRegistered, rfl⟩
    obtain ⟨idle, idleFound, priority, pinned, idleAlive, only⟩ :=
      invariant.idle home homeRecord.1
    rw [homeRecord.2]
    by_cases chosen : (scheduler.cpus home).idleIdx = choice
    · refine ⟨resume cpu (scheduler.setAside cpu sp timer choice idle), by
          rw [table, idleFound]; simp [chosen], ?_, ?_, ?_, ?_⟩
      · exact (setAside_kept ..).2.1.trans priority
      · exact (setAside_kept ..).1.trans pinned
      · simp [resume]
      · intro other onOther
        rw [← Option.some.inj onOther]
        exact (onlyHere home homeRecord.1 chosen.symm).symm
    · refine ⟨scheduler.setAside cpu sp timer (scheduler.cpus home).idleIdx idle, by
          rw [table, idleFound]; simp [chosen], ?_, ?_, ?_, ?_⟩
      · exact (setAside_kept ..).2.1.trans priority
      · exact (setAside_kept ..).1.trans pinned
      · rw [Ne, setAside_exited]
        exact idleAlive
      · intro other onOther
        rw [setAside_onCpu] at onOther
        split at onOther
        · cases onOther
        · exact only other onOther
  · intro index _ newFound reaped
    obtain ⟨before, source, ⟨chosen, rfl⟩ | ⟨_, rfl⟩⟩ := origin newFound
    · subst chosen
      rw [oldFound] at source
      cases source
      have gone := (invariant.reaped _ old oldFound
        ((setAside_kept scheduler cpu sp timer _ old).2.2.symm.trans reaped)).1
      rw [task_eq, Ne, setAside_exited] at alive
      exact absurd gone alive
    · rw [(setAside_kept ..).2.2] at reaped
      obtain ⟨exited, away⟩ := invariant.reaped index before source reaped
      refine ⟨(setAside_exited ..).mpr exited, ?_⟩
      rw [setAside_onCpu, away]
      split <;> rfl

end

/-! ### Every reachable state -/

/-- Every operation keeps exclusivity. -/
theorem Exclusive.perform {next : Scheduler} (invariant : Exclusive scheduler)
    {operation : Operation} (permitted : scheduler.Permitted operation)
    (performed : scheduler.perform operation = some next) : Exclusive next := by
  cases operation with
  | onTick cpu sp timer ipiAvailable =>
    obtain ⟨_, ticked, rfl⟩ := Option.map_eq_some_iff.mp performed
    exact invariant.onTick ticked
  | addTask task =>
    cases performed
    exact invariant.addTask permitted
  | postRequest cpu receiver msg =>
    obtain ⟨⟨result, after⟩, posted, rfl⟩ := Option.map_eq_some_iff.mp performed
    rcases postRequest_cases posted with ⟨_, _, rfl⟩ |
      ⟨me, sender, index, _, current, different, found, targetId, _, _, _, rfl⟩
    · exact invariant
    · have apart := places_ne found current.2 fun same => different (same ▸ targetId.symm)
      exact invariant.request current apart _ receiver
  | takeRequest cpu blocking =>
    obtain ⟨⟨result, after⟩, taken, rfl⟩ := Option.map_eq_some_iff.mp performed
    obtain ⟨me, task, current, effect⟩ := takeRequest_cases taken
    rcases effect with ⟨_, _, _, _, rfl⟩ | ⟨_, _, _, rfl⟩ | ⟨_, _, _, rfl⟩
    · exact invariant.modify_current current _ rfl rfl rfl rfl id id
    · exact invariant.modify_current current _ rfl rfl rfl rfl (by simp) (by simp)
    · exact invariant
  | postReply cpu sender msg =>
    obtain ⟨⟨result, after⟩, replied, rfl⟩ := Option.map_eq_some_iff.mp performed
    rcases postReply_cases replied with ⟨_, _, rfl⟩ | ⟨_, _, index, _, _, _, _, _, _, _, _, rfl⟩
    · exact invariant
    · exact invariant.answer index _
  | markExited cpu =>
    obtain ⟨⟨_, after⟩, marked, rfl⟩ := Option.map_eq_some_iff.mp performed
    obtain ⟨me, task, current, rfl⟩ := markExited_cases marked
    exact invariant.exit current permitted
  | sleepUntil cpu deadline =>
    obtain ⟨me, task, current, rfl⟩ := sleepUntil_cases performed
    exact invariant.modify_current current _ rfl rfl rfl rfl (by simp) (by simp)
  | recheckReply cpu =>
    obtain ⟨⟨_, _⟩, checked, rfl⟩ := Option.map_eq_some_iff.mp performed
    obtain ⟨_, _, current, _, ⟨_, _, rfl⟩ | ⟨_, rfl⟩⟩ := recheckReply_cases checked
    · exact invariant.modify_current current _ rfl rfl rfl rfl id id
    · exact invariant.modify_current current _ rfl rfl rfl rfl (by simp) (by simp)
  | collectExited =>
    cases performed
    exact invariant.collectExited

theorem exclusive_of_reachable (reachable : Reachable operations scheduler) :
    Exclusive scheduler := by
  refine reachable.invariant Exclusive (fun _ boot => Boot.exclusive boot) ?_
  intro _ _ _ _ invariant step
  exact invariant.perform step.1 step.2

/-- No saved context is run by two CPUs. -/
structure SingleContext (scheduler : Scheduler) : Prop where
  /-- A registered CPU has a current task, which is on that CPU. -/
  current : ∀ cpu, (scheduler.cpus cpu).registered = true →
    ∃ index task, (scheduler.cpus cpu).current = some index ∧
      scheduler.tasks[index]? = some task ∧ task.onCpu = some cpu
  /-- Distinct CPUs have distinct current tasks. -/
  injective : ∀ first second index, (scheduler.cpus first).current = some index →
    (scheduler.cpus second).current = some index → first = second
  /-- A task on a CPU is that CPU's current task. -/
  owner : ∀ (index : Nat) task cpu,
    scheduler.tasks[index]? = some task → task.onCpu = some cpu →
    (scheduler.cpus cpu).registered = true ∧ (scheduler.cpus cpu).current = some index
  /-- A running task is on a CPU. -/
  running : ∀ (index : Nat) task, scheduler.tasks[index]? = some task →
    task.state = .running → task.onCpu.isSome = true
  /-- An idle task is current only on its own CPU. -/
  idleHome : ∀ home cpu, (scheduler.cpus home).registered = true →
    (scheduler.cpus cpu).current = some (scheduler.cpus home).idleIdx → cpu = home
  /-- A context switch reaches `pick_next`, and the task picked there is off every CPU. -/
  picked : ∀ cpu sp timer, (scheduler.cpus cpu).registered = true →
    ∃ saved task, scheduler.beforePick cpu sp timer = some saved ∧
      saved.tasks[(saved.pickNext cpu).1]? = some task ∧ task.onCpu = none

/-- In every state reachable by the lock-protected operations after boot, no saved context is
run by two CPUs. -/
theorem singleContext_of_reachable (reachable : Reachable operations scheduler) :
    SingleContext scheduler := by
  have invariant := exclusive_of_reachable reachable
  refine ⟨?_, ?_, ?_, ?_, ?_, ?_⟩
  · intro cpu registered
    obtain ⟨index, task, current, onCpu⟩ := invariant.runs cpu registered
    exact ⟨index, task, current.1, current.2, onCpu⟩
  · intro _ _ index left right
    exact invariant.injective left right
  · intro index task cpu found onCpu
    have current := invariant.owner index task cpu found onCpu
    exact ⟨invariant.registered current, current⟩
  · intro index task found running
    exact Option.isSome_iff_ne_none.mpr (invariant.running index task found running)
  · intro home cpu registered current
    obtain ⟨idle, found, _, _, _, only⟩ := invariant.idle home registered
    exact only cpu (invariant.onCpu_of_current ⟨current, found⟩)
  · intro _ sp timer registered
    obtain ⟨saved, task, _, before, _, _, _, _, found, off, _⟩ :=
      invariant.picked registered sp timer
    exact ⟨saved, task, before, found, off⟩

/-- Two CPUs after boot, with one task in the table. -/
def bootedPair : Scheduler :=
  ((Scheduler.new.registerCpu 0 10 1).registerCpu 1 11 2).addTask
    (.new 3 ⟨0x1000, 0, 0x8000⟩ priorityDefault 0xA0)

/-- The pair after its second CPU has taken the task up. -/
def dispatchedPair : Scheduler :=
  ((bootedPair.onTick 1 0x500 true true).map TickOutcome.scheduler).getD bootedPair

theorem singleContext_dispatchedPair :
    (dispatchedPair.cpus 1).current = some 2 ∧ SingleContext dispatchedPair := by
  have boot : Boot ((Scheduler.new.registerCpu 0 10 1).registerCpu 1 11 2) :=
    .register (.register .new 0 10 1 rfl) 1 11 2 rfl
  have added : Reachable operations bootedPair :=
    .step (.init boot) (.addTask (.new 3 ⟨0x1000, 0, 0x8000⟩ priorityDefault 0xA0))
      ⟨.kernel .., rfl⟩
  have ticked : Reachable operations dispatchedPair :=
    .step added (.onTick 1 0x500 true true) ⟨trivial, rfl⟩
  exact ⟨rfl, singleContext_of_reachable ticked⟩

end Mmurtl.Scheduler

/-
This file models the branch-predictor work of a context switch on amd64 and proves that no
user task runs on predictions another user task has left on the same CPU.

A switch flushes only if it goes to a user task other than the last one it remembers for
the CPU, and the scheduler calls it only if the CPU goes on with another slot of the task
table. Slots are recycled, so the second test is sound only because a slot is not reused
while a CPU is on it: what the CPU remembers is then always the task it is on, if that is
a user task.
-/

import Mmurtl.Scheduler.Waiting

namespace Mmurtl.Amd64

open Transition Scheduler List

variable {scheduler : Scheduler} {system : System} {outcome : TickOutcome} {me : Nat}
  {task : TaskControlBlock}

/-! ### Context switches -/

/-- What a predictor plan asks of context switches. -/
structure Plan where
  ibpb : Bool
  rsb : Bool
  bhbLoop : Bool
  ibhf : Bool

/-- An operation on the predictors of a CPU. -/
inductive Op where
  | userBarrier
  | clearBhb
  | historyFence
  | fillRsb
  deriving DecidableEq

/-- What a switch does on a CPU, and the last user task the CPU remembers after it. -/
def contextSwitch (plan : Option Plan) (lastUser : Nat) (user : Bool) (task : Nat) :
    List Op × Nat :=
  match plan with
  | none => ([], lastUser)
  | some plan =>
      ((if user && lastUser != task && plan.ibpb then
          [.userBarrier] ++ (if plan.bhbLoop then [.clearBhb] else []) ++
            (if plan.ibhf then [.historyFence] else [])
        else []) ++ (if plan.rsb then [.fillRsb] else []),
        if user then task else lastUser)

/-- What each CPU remembers. -/
abbrev Memory := CpuIndex → Nat

/-- Carry out a hardware call of the scheduler, as far as the predictors are concerned. -/
def perform (plan : Option Plan) (memory : Memory) : ArchCall → List Op × Memory
  | .contextSwitch cpu user task =>
      let switched := contextSwitch plan (memory cpu) user task
      (switched.1, Function.update memory cpu switched.2)
  | _ => ([], memory)

/-- Carry out hardware calls in order. -/
def performAll (plan : Option Plan) (memory : Memory) : List ArchCall → List Op × Memory
  | [] => ([], memory)
  | call :: rest =>
      let first := perform plan memory call
      let later := performAll plan first.2 rest
      (first.1 ++ later.1, later.2)

/-! ### The machine -/

/-- The kernel and what its CPUs remember. -/
structure Machine where
  system : System
  lastUser : Memory

variable {start last : Machine}

/-- The context switch an action makes: its CPU and its outcome. -/
def switchOf (system : System) : Action → Option (CpuIndex × TickOutcome)
  | .interrupt cpu sp timer ipiAvailable =>
      (system.scheduler.onTick cpu sp timer ipiAvailable).map (cpu, ·)
  | .yield cpu sp ipiAvailable =>
      (system.scheduler.onTick cpu sp false ipiAvailable).map (cpu, ·)
  | _ => none

/-- What an action does to the predictors. -/
def flush (plan : Option Plan) (machine : Machine) (action : Action) : List Op × Memory :=
  match switchOf machine.system action with
  | some (_, outcome) => performAll plan machine.lastUser outcome.calls
  | none => ([], machine.lastUser)

/-- The kernel with a predictor plan in force from the start. -/
def machines (plan : Option Plan) : LabelledSystem Machine Action where
  init machine := BootSystem machine.system ∧ ∀ cpu, machine.lastUser cpu = 0
  step machine action next :=
    kernel.step machine.system action next.system ∧ next.lastUser = (flush plan machine action).2

/-- What happens on a CPU. -/
inductive Event where
  | did (op : Op)
  /-- A task is made the CPU's current one. -/
  | runs (id : Nat) (user : Bool)
  deriving DecidableEq

/-- What a move does on a CPU: the work of its context switch, then the task that runs. -/
def eventsOf (plan : Option Plan) (cpu : CpuIndex) (move : Move Machine Action) : List Event :=
  match switchOf move.before.system move.label with
  | some (home, outcome) =>
      if home = cpu then
        (performAll plan move.before.lastUser outcome.calls).1.map .did ++
          ((move.after.system.currentTask cpu).map fun task => .runs task.id task.user).toList
      else []
  | none => []

/-- The history of a CPU. -/
def trace (plan : Option Plan) (cpu : CpuIndex) (moves : List (Move Machine Action)) :
    List Event :=
  moves.flatMap (eventsOf plan cpu)

/-- Between a user task and the next one, if it is another one, the CPU flushes. -/
def Flushed (events : List Event) : Prop :=
  ∀ earlier first between second later,
    events = earlier ++ .runs first true :: between ++ .runs second true :: later →
    (∀ id, .runs id true ∉ between) → first ≠ second → .did .userBarrier ∈ between

/-! ### The calls of a context switch -/

section Calls

variable {plan : Option Plan}

theorem performAll_append (memory : Memory) (calls more : List ArchCall) :
    performAll plan memory (calls ++ more) = ((performAll plan memory calls).1 ++
          (performAll plan (performAll plan memory calls).2 more).1,
        (performAll plan (performAll plan memory calls).2 more).2) := by
  induction calls generalizing memory with
  | nil => rfl
  | cons call rest ih =>
    simp only [cons_append, performAll, ih, append_assoc]

/-- The reschedule interrupts of a switch leave the predictors alone. -/
theorem performAll_kickIdle (memory : Memory) (scheduler : Scheduler) (cpu : CpuIndex)
    (woken : Nat) (others : List CpuIndex) :
    performAll plan memory (scheduler.kickIdle cpu woken others) = ([], memory) := by
  induction others generalizing woken with
  | nil => rfl
  | cons other rest ih =>
    unfold kickIdle
    split
    · rfl
    · split
      · simp only [performAll, perform, ih, append_nil]
      · exact ih woken

theorem performAll_switchCalls (memory : Memory) (scheduler : Scheduler) (cpu : CpuIndex)
    (next : Nat) (task : TaskControlBlock) :
    performAll plan memory (scheduler.switchCalls cpu next task) =
      if (scheduler.cpus cpu).current = some next then ([], memory)
      else perform plan memory (.contextSwitch cpu task.user task.id) := by
  unfold switchCalls
  by_cases stays : (scheduler.cpus cpu).current = some next
  · rw [if_pos stays, if_pos stays]
    cases task.user <;> rfl
  · rw [if_neg stays, if_neg stays]
    cases task.user <;> simp [performAll, perform]

end Calls

/-! ### Who a slot belongs to -/

/-- A slot still holds the same task. -/
structure SameTask (old new : TaskControlBlock) : Prop where
  id : new.id = old.id
  user : new.user = old.user

theorem SameTask.refl (task : TaskControlBlock) : SameTask task task := ⟨rfl, rfl⟩

theorem SameTask.setAside (scheduler : Scheduler) (cpu : CpuIndex) (sp : UInt64) (timer : Bool)
    (index : Nat) (task : TaskControlBlock) :
    SameTask task (scheduler.setAside cpu sp timer index task) := by
  unfold Scheduler.setAside save wake
  split <;> split <;> exact ⟨rfl, rfl⟩

theorem SameTask.rouse (expected : TaskState) (task : TaskControlBlock) :
    SameTask task (rouse expected task) := by
  unfold Scheduler.rouse
  split <;> exact ⟨rfl, rfl⟩

theorem SameTask.deliver (msg : Rqb) (task : TaskControlBlock) :
    SameTask task (deliver msg task) :=
  have roused := SameTask.rouse .waitingRqb (enqueue msg task)
  ⟨roused.id, roused.user⟩

theorem SameTask.answer (msg : Rqb) (task : TaskControlBlock) : SameTask task (answer msg task) :=
  have roused := SameTask.rouse .waitingReply { task with reply := some msg }
  ⟨roused.id, roused.user⟩

theorem SameTask.abort (exiting : Nat) (task : TaskControlBlock) :
    SameTask task (abort exiting task) := by
  unfold Scheduler.abort
  split
  · exact .answer _ task
  · exact .refl task

/-- A slot keeps its task. -/
def KeepsTask (scheduler next : Scheduler) (index : Nat) : Prop :=
  ∀ old, scheduler.tasks[index]? = some old →
    ∃ new, next.tasks[index]? = some new ∧ SameTask old new

theorem KeepsTask.refl (scheduler : Scheduler) (index : Nat) :
    KeepsTask scheduler scheduler index :=
  fun old found => ⟨old, found, .refl old⟩

theorem KeepsTask.trans {first second third : Scheduler} {index : Nat}
    (left : KeepsTask first second index) (right : KeepsTask second third index) :
    KeepsTask first third index := by
  intro old found
  obtain ⟨middle, there, same⟩ := left old found
  obtain ⟨new, last, again⟩ := right middle there
  exact ⟨new, last, again.id.trans same.id, again.user.trans same.user⟩

theorem KeepsTask.of_map {next : Scheduler} {change : Nat → TaskControlBlock → TaskControlBlock}
    (tasks : ∀ index, next.tasks[index]? = scheduler.tasks[index]?.map (change index))
    (same : ∀ index task, SameTask task (change index task)) (index : Nat) :
    KeepsTask scheduler next index :=
  fun old found => ⟨change index old, by rw [tasks, found]; rfl, same index old⟩

theorem keepsTask_modifyTask (scheduler : Scheduler) (place index : Nat)
    {change : TaskControlBlock → TaskControlBlock} (same : ∀ task, SameTask task (change task)) :
    KeepsTask scheduler (scheduler.modifyTask place change) index := by
  intro old found
  rw [modifyTask_task]
  by_cases here : place = index
  · rw [if_pos here, found]
    exact ⟨change old, rfl, same old⟩
  · rw [if_neg here]
    exact ⟨old, found, .refl old⟩

variable {next : System} {action : Action}

/-- An action that is no context switch leaves every CPU on its slot, and every slot that is
not free to be reused with its task. -/
theorem steady_of_act {outcome : Scheduler.Outcome}
    (acted : system.act action = some (outcome, next)) (still : switchOf system action = none) :
    next.scheduler.cpus = system.scheduler.cpus ∧
      ∀ index old, system.scheduler.tasks[index]? = some old →
        old.reaped = false → KeepsTask system.scheduler next.scheduler index := by
  cases System.turn_of_act acted with
  | interrupt ticked =>
    rw [switchOf, ticked] at still
    cases still
  | yield _ _ ticked =>
    rw [switchOf, ticked] at still
    cases still
  | createTask | refused | triedEmpty | unreplied | sleep | sleepTest =>
    exact ⟨rfl, fun index _ _ _ => .refl _ index⟩
  | @addTask task built =>
    refine ⟨addTask_cpus system.scheduler task, fun index old found live => ?_⟩
    obtain ⟨slot, _, free, elsewhere⟩ := addTask_task system.scheduler task
    have apart : index ≠ slot := by
      rintro rfl
      rw [(free old found).2] at live
      cases live
    exact fun other there => ⟨other, (elsewhere index apart).trans there, .refl other⟩
  | collectExited =>
    refine ⟨rfl, fun index _ _ _ => .of_map (collectExited_task system.scheduler) ?_ index⟩
    intro index task
    unfold collected
    split <;> exact ⟨rfl, rfl⟩
  | accepted =>
    refine ⟨rfl, fun index _ _ _ => (keepsTask_modifyTask _ _ index fun task => ?_).trans
      (keepsTask_modifyTask _ _ index fun _ => ⟨rfl, rfl⟩)⟩
    exact .deliver _ task
  | returned | spurious | received | blocked | tried | sleepCall =>
    exact ⟨rfl, fun index _ _ _ => keepsTask_modifyTask _ _ index fun _ => ⟨rfl, rfl⟩⟩
  | replied =>
    exact ⟨rfl, fun index _ _ _ => keepsTask_modifyTask _ _ index fun task => .answer _ task⟩
  | @exit cpu me task calls =>
    refine ⟨rfl, fun index _ _ _ =>
      .of_map (exit_lookup system.scheduler.tasks me task.id) (fun place old => ?_) index⟩
    have aborted := SameTask.abort task.id (if me = place then Scheduler.exit old else old)
    have same : SameTask old (if me = place then Scheduler.exit old else old) := by
      split <;> exact ⟨rfl, rfl⟩
    exact ⟨aborted.id.trans same.id, aborted.user.trans same.user⟩

/-! ### One context switch -/

/-- A context switch does nothing, or hands the CPU to a task and flushes if it goes on with
another slot. -/
theorem onTick_flush (exclusive : Exclusive scheduler) {cpu : CpuIndex} {sp : UInt64}
    {timer ipiAvailable : Bool}
    (ticked : scheduler.onTick cpu sp timer ipiAvailable = some outcome) :
    (outcome.scheduler = scheduler ∧ outcome.calls = []) ∨ ∃ choice old,
      scheduler.tasks[choice]? = some old ∧
      outcome.scheduler.cpus = Function.update scheduler.cpus cpu
        { scheduler.cpus cpu with current := some choice } ∧
      (∀ index, KeepsTask scheduler outcome.scheduler index) ∧
      ∀ plan memory, performAll plan memory outcome.calls =
        if (scheduler.cpus cpu).current = some choice then ([], memory)
        else perform plan memory (.contextSwitch cpu old.user old.id) := by
  unfold onTick at ticked
  by_cases inactive : (!(scheduler.cpus cpu).registered || scheduler.tasks.isEmpty) = true
  · rw [if_pos inactive] at ticked
    cases ticked
    exact .inl ⟨rfl, rfl⟩
  rw [if_neg inactive] at ticked
  right
  simp only [Bool.or_eq_true, Bool.not_eq_true', List.isEmpty_iff, not_or,
    Bool.not_eq_false] at inactive
  obtain ⟨saved, picked, old, before, cpus, tasks, oldFound, picked_eq, found, -⟩ :=
    exclusive.picked inactive.1 sp timer
  simp only [before, Option.bind_eq_bind, Option.bind_some, (saved.pickNext_snd cpu).1, found]
    at ticked
  cases ticked
  refine ⟨(saved.pickNext cpu).1, old, oldFound, ?_, ?_, fun plan memory => ?_⟩
  · rw [dispatch_cpus, (saved.pickNext_snd cpu).2.1, cpus]
  · refine KeepsTask.of_map (dispatch_tasks tasks) fun index task => ?_
    have aside := SameTask.setAside scheduler cpu sp timer index task
    split
    · exact ⟨aside.id, aside.user⟩
    · exact aside
  · have same := SameTask.setAside scheduler cpu sp timer (saved.pickNext cpu).1 old
    rw [← picked_eq] at same
    have quiet : ∀ calls, (calls = [] ∨ ∃ woken others, calls =
        (scheduler.countTick cpu timer).kickIdle cpu woken others) →
        performAll plan memory calls = ([], memory) := by
      rintro _ (rfl | ⟨_, _, rfl⟩)
      · rfl
      · exact performAll_kickIdle ..
    rw [performAll_append, quiet, performAll_switchCalls, (saved.pickNext_snd cpu).2.1, cpus,
      same.id, same.user]
    · rfl
    · split
      · exact .inr ⟨_, _, rfl⟩
      · exact .inl rfl

/-- An action with a context switch goes on with the switch's scheduler. -/
theorem onTick_of_switchOf {answer : Scheduler.Outcome} {home : CpuIndex}
    (acted : system.act action = some (answer, next))
    (switches : switchOf system action = some (home, outcome)) :
    next.scheduler = outcome.scheduler ∧ ∃ sp timer ipiAvailable,
        system.scheduler.onTick home sp timer ipiAvailable = some outcome := by
  cases System.turn_of_act acted with
  | interrupt ticked | yield _ _ ticked =>
    rw [switchOf, ticked] at switches
    cases switches
    exact ⟨rfl, _, _, _, ticked⟩
  | _ => cases switches

/-! ### Histories that flush -/

/-- The last user task of a history. -/
def remembered (events : List Event) : Nat :=
  events.foldl (fun last event => match event with
    | .runs id true => id
    | _ => last) 0

section Events

variable {events : List Event}

theorem remembered_concat (events : List Event) (id : Nat) (user : Bool) :
    remembered (events ++ [.runs id user]) = if user then id else remembered events := by
  rw [remembered, foldl_append]
  cases user <;> rfl

theorem remembered_did (events : List Event) (ops : List Op) :
    remembered (events ++ ops.map .did) = remembered events := by
  rw [remembered, foldl_append]
  induction ops generalizing events with
  | nil => rfl
  | cons op rest ih =>
    exact ih events

/-- The last user task of a history is the one no other user task follows. -/
theorem remembered_of_last {earlier between : List Event} {first : Nat}
    (others : ∀ id, .runs id true ∉ between) :
    remembered (earlier ++ .runs first true :: between) = first := by
  induction between using List.reverseRecOn with
  | nil => exact remembered_concat earlier first true
  | append_singleton between event ih =>
    have before := ih fun id member => others id (mem_append_left _ member)
    rw [← cons_append, ← append_assoc, remembered, foldl_append]
    rcases event with _ | ⟨id, user⟩
    · exact before
    · cases user with
      | false => exact before
      | true => exact absurd (mem_append_right _ mem_cons_self) (others id)

theorem Flushed.nil : Flushed [] := by
  intro earlier _ _ _ _ split
  cases earlier <;> cases split

theorem Flushed.did (flushed : Flushed events) (op : Op) : Flushed (events ++ [.did op]) := by
  intro earlier first between second later split others different
  rcases eq_nil_or_concat later with rfl | ⟨rest, _, rfl⟩
  · cases (append_inj' split rfl).2
  · rw [concat_eq_append, ← cons_append, ← append_assoc] at split
    exact flushed earlier first between second rest (append_inj' split rfl).1 others different

theorem Flushed.dids (flushed : Flushed events) (ops : List Op) :
    Flushed (events ++ ops.map .did) := by
  induction ops generalizing events with
  | nil =>
    rw [map_nil, append_nil]
    exact flushed
  | cons op rest ih =>
    rw [map_cons, append_cons]
    exact ih (flushed.did op)

/-- A history stays flushed if another user task than the last one comes after a barrier. -/
theorem Flushed.runs (flushed : Flushed events) (ops : List Op) (id : Nat) (user : Bool)
    (barrier : user = true → remembered events ≠ id → .userBarrier ∈ ops) :
    Flushed (events ++ ops.map .did ++ [.runs id user]) := by
  intro earlier first between second later split others different
  rcases eq_nil_or_concat later with rfl | ⟨rest, final, rfl⟩
  · obtain ⟨same, final⟩ := append_inj' split rfl
    cases final
    have last : remembered events = first := by
      rw [← remembered_did events ops, same, remembered_of_last others]
    have done : .userBarrier ∈ ops := barrier rfl (by rw [last]; exact different)
    have flushes : Event.did .userBarrier ∈ ops.map Event.did := mem_map_of_mem done
    have none : Event.runs first true ∉ ops.map Event.did := by
      intro member
      obtain ⟨_, _, wrong⟩ := mem_map.mp member
      cases wrong
    rcases append_eq_append_iff.mp same with ⟨_, -, whole⟩ | ⟨back, -, whole⟩
    · rw [whole] at none
      exact absurd (mem_append_right _ mem_cons_self) none
    · cases back with
      | nil =>
        rw [nil_append] at whole
        rw [← whole] at none
        exact absurd mem_cons_self none
      | cons _ back =>
        rw [(List.cons.inj whole).2]
        exact mem_append_right _ flushes
  · rw [concat_eq_append, ← cons_append, ← append_assoc] at split
    exact (flushed.dids ops) earlier first between second rest (append_inj' split rfl).1 others
      different

end Events

/-! ### Every run -/

/-- A CPU remembers the last user task of its history and is on that task if it is on a user
task, and its history flushes. -/
structure Remembers (plan : Option Plan) (cpu : CpuIndex) (moves : List (Move Machine Action))
    (machine : Machine) : Prop where
  memory : machine.lastUser cpu = remembered (trace plan cpu moves)
  current : ∀ me task, machine.system.scheduler.Current cpu me task → task.user = true →
    machine.lastUser cpu = task.id
  flushed : Flushed (trace plan cpu moves)

section Runs

variable {plan : Plan} {cpu : CpuIndex} {moves : List (Move Machine Action)}
  {machine next : Machine}

theorem trace_concat (plan : Option Plan) (cpu : CpuIndex) (moves : List (Move Machine Action))
    (move : Move Machine Action) :
    trace plan cpu (moves ++ [move]) = trace plan cpu moves ++ eventsOf plan cpu move := by
  rw [trace, flatMap_append, flatMap_singleton]
  rfl

/-- A CPU that stays on its slot stays on its task. -/
theorem current_before {after : Scheduler} (exclusive : Exclusive scheduler)
    {new : TaskControlBlock} (same : (after.cpus cpu).current = (scheduler.cpus cpu).current)
    (keeps : ∀ old, scheduler.tasks[me]? = some old → old.reaped = false →
      KeepsTask scheduler after me) (current : after.Current cpu me new) :
    ∃ old, scheduler.Current cpu me old ∧ SameTask old new := by
  have on := current.1
  rw [same] at on
  obtain ⟨place, old, here, -⟩ := exclusive.runs cpu (exclusive.registered on)
  have place_eq : place = me := Option.some.inj (here.1.symm.trans on)
  subst place_eq
  obtain ⟨_, there, sameTask⟩ := keeps old here.2 (exclusive.not_reaped here) old here.2
  rw [current.2] at there
  cases there
  exact ⟨old, here, sameTask⟩

theorem currentTask_of_current (current : system.scheduler.Current cpu me task) :
    system.currentTask cpu = some task := by
  rw [System.currentTask, current.1]
  exact current.2

/-- A CPU that does not flush and stays on its task goes on remembering it. -/
theorem Remembers.stays {plan : Option Plan} (remembers : Remembers plan cpu moves machine)
    (events : eventsOf plan cpu ⟨machine, action, next⟩ = [] ∨
      ∃ me task, next.system.scheduler.Current cpu me task ∧
        eventsOf plan cpu ⟨machine, action, next⟩ = [.runs task.id task.user])
    (memory : next.lastUser cpu = machine.lastUser cpu)
    (same : ∀ me new, next.system.scheduler.Current cpu me new →
      ∃ place old, machine.system.scheduler.Current cpu place old ∧ SameTask old new) :
    Remembers plan cpu (moves ++ [⟨machine, action, next⟩]) next := by
  have current : ∀ me task, next.system.scheduler.Current cpu me task → task.user = true →
      machine.lastUser cpu = task.id := by
    intro me task here user
    obtain ⟨place, old, there, sameTask⟩ := same me task here
    rw [sameTask.id]
    exact remembers.current place old there (sameTask.user.symm.trans user)
  refine ⟨?_, fun me task here user => memory.trans (current me task here user), ?_⟩
  · rw [memory, trace_concat, remembers.memory]
    rcases events with silent | ⟨me, task, here, runs⟩
    · rw [silent, append_nil]
    · rw [runs, remembered_concat]
      split
      · rename_i user
        rw [← remembers.memory]
        exact current me task here user
      · rfl
  · rw [trace_concat]
    rcases events with silent | ⟨me, task, here, runs⟩
    · rw [silent, append_nil]
      exact remembers.flushed
    · have flushed := remembers.flushed.runs [] task.id task.user fun user other =>
        absurd (remembers.memory.symm.trans (current me task here user)) other
      rw [map_nil, append_nil] at flushed
      rw [runs]
      exact flushed

section

variable (barriers : plan.ibpb = true) (remembers : Remembers (some plan) cpu moves machine)
include barriers remembers

/-- A CPU that goes on with another slot flushes if the user task changes. -/
theorem Remembers.switches (current : next.system.scheduler.Current cpu me task)
    (events : eventsOf (some plan) cpu ⟨machine, action, next⟩ =
      (contextSwitch (some plan) (machine.lastUser cpu) task.user task.id).1.map .did ++
      [.runs task.id task.user]) (memory : next.lastUser cpu =
      (contextSwitch (some plan) (machine.lastUser cpu) task.user task.id).2) :
    Remembers (some plan) cpu (moves ++ [⟨machine, action, next⟩]) next := by
  have holds : next.lastUser cpu = if task.user then task.id else machine.lastUser cpu := memory
  refine ⟨?_, ?_, ?_⟩
  · rw [holds, trace_concat, events, ← append_assoc, remembered_concat, remembered_did,
      remembers.memory]
  · intro _ other here user
    obtain ⟨-, rfl⟩ := current.unique here
    rw [holds, if_pos user]
  · rw [trace_concat, events, ← append_assoc]
    refine remembers.flushed.runs _ task.id task.user fun user other => ?_
    rw [← remembers.memory] at other
    simp [contextSwitch, user, other, barriers]

theorem Remembers.step (consistent : Consistent machine.system) {answer : Scheduler.Outcome}
    (acted : machine.system.act action = some (answer, next.system))
    (memory : next.lastUser = (flush (some plan) machine action).2) :
    Remembers (some plan) cpu (moves ++ [⟨machine, action, next⟩]) next := by
  have exclusive := consistent.exclusive
  cases switches : switchOf machine.system action with
  | none =>
    obtain ⟨cpus, keeps⟩ := steady_of_act acted switches
    refine remembers.stays (.inl (by rw [eventsOf, switches])) ?_ fun me new current => ?_
    · rw [memory, flush, switches]
    · obtain ⟨old, here, same⟩ := current_before exclusive (by rw [cpus]) (keeps me) current
      exact ⟨me, old, here, same⟩
  | some switch =>
    obtain ⟨home, outcome⟩ := switch
    obtain ⟨scheduler, _, _, _, ticked⟩ := onTick_of_switchOf acted switches
    have remembered : next.lastUser =
        (performAll (some plan) machine.lastUser outcome.calls).2 := by
      rw [memory, flush, switches]
    by_cases here : home = cpu
    · subst here
      have events : eventsOf (some plan) home ⟨machine, action, next⟩ =
          (performAll (some plan) machine.lastUser outcome.calls).1.map .did ++
            ((next.system.currentTask home).map fun task => .runs task.id task.user).toList := by
        rw [eventsOf, switches]
        exact if_pos rfl
      rcases onTick_flush exclusive ticked with ⟨same, silent⟩ |
        ⟨choice, old, oldFound, cpus, keeps, performed⟩
      · rw [silent] at remembered events
        refine remembers.stays ?_ (congrFun remembered home) fun me new current => ?_
        · cases running : next.system.currentTask home with
          | none =>
            rw [running] at events
            exact .inl events
          | some task =>
            obtain ⟨me, current⟩ := System.currentTask_some running
            rw [running] at events
            exact .inr ⟨me, task, current, events⟩
        · rw [scheduler, same] at current
          exact ⟨me, new, current, .refl new⟩
      · obtain ⟨new, there, same⟩ := keeps choice old oldFound
        have current : next.system.scheduler.Current home choice new := by
          rw [scheduler]
          refine ⟨?_, there⟩
          rw [cpus, Function.update_self]
        rw [currentTask_of_current current] at events
        rw [performed (some plan) machine.lastUser] at remembered events
        by_cases stays : (machine.system.scheduler.cpus home).current = some choice
        · rw [if_pos stays] at remembered events
          refine remembers.stays (.inr ⟨choice, new, current, events⟩) (congrFun remembered home)
            fun me other otherCurrent => ?_
          obtain ⟨rfl, rfl⟩ := current.unique otherCurrent
          exact ⟨choice, old, ⟨stays, oldFound⟩, same⟩
        · rw [if_neg stays, ← same.user, ← same.id] at remembered events
          refine remembers.switches barriers current events ?_
          rw [remembered]
          exact Function.update_self ..
    · refine remembers.stays (.inl ?_) ?_ fun me new current => ?_
      · rw [eventsOf, switches]
        exact if_neg here
      · rcases onTick_flush exclusive ticked with ⟨_, silent⟩ | ⟨_, _, _, _, _, performed⟩
        · rw [remembered, silent]
          rfl
        · rw [remembered, performed]
          split
          · rfl
          · exact Function.update_of_ne (Ne.symm here) ..
      · rcases onTick_flush exclusive ticked with ⟨same, _⟩ | ⟨_, _, _, cpus, keeps, _⟩
        · rw [scheduler, same] at current
          exact ⟨me, new, current, .refl new⟩
        · rw [scheduler] at current
          obtain ⟨old, there, same⟩ := current_before exclusive
            (by rw [cpus, Function.update_of_ne (Ne.symm here)]) (fun _ _ _ => keeps me) current
          exact ⟨me, old, there, same⟩

end

/-- The kernel of a machine's run runs by itself. -/
theorem reachable_of_run {plan : Option Plan} (initial : (machines plan).init start)
    (run : Run (machines plan) start moves last) : Reachable kernel last.system := by
  induction run with
  | nil => exact .init initial.1
  | snoc _ step ih => exact .step ih _ step.1

/-- With barriers in the plan, every CPU flushes between two user tasks. -/
theorem flushed_of_run (barriers : plan.ibpb = true) {start last : Machine}
    (initial : (machines (some plan)).init start)
    (run : Run (machines (some plan)) start moves last) (cpu : CpuIndex) :
    Flushed (trace (some plan) cpu moves) := by
  suffices remembers : Remembers (some plan) cpu moves last from remembers.flushed
  induction run with
  | nil =>
    refine ⟨initial.2 cpu, fun me task current user => ?_, .nil⟩
    obtain ⟨_, _, rfl⟩ := initial.1.adopted me task current.2
    cases user
  | snoc run step ih =>
    obtain ⟨⟨_, _, acted⟩, memory⟩ := step
    exact ih.step barriers
      (consistent_of_reachable (reachable_of_run initial run)) acted memory

end Runs

/-! ### Two users on one CPU -/

/-- The machine after an action. -/
def Machine.after (plan : Option Plan) (machine : Machine) (action : Action) : Machine :=
  ⟨machine.system.after action, (flush plan machine action).2⟩

/-- The moves of a list of actions. -/
def Machine.moves (plan : Option Plan) (machine : Machine) :
    List Action → List (Move Machine Action)
  | [] => []
  | action :: rest =>
      ⟨machine, action, machine.after plan action⟩ :: (machine.after plan action).moves plan rest

/-- Every one of the actions is possible when its turn comes. -/
def Machine.possible (plan : Option Plan) (machine : Machine) : List Action → Bool
  | [] => true
  | action :: rest =>
      (machine.system.act action).isSome && (machine.after plan action).possible plan rest

theorem run_moves {plan : Option Plan} {machine : Machine} {actions : List Action}
    (prepared : ∀ task, .createTask task ∈ actions → Prepared task)
    (possible : machine.possible plan actions = true) :
    Run (machines plan) machine (machine.moves plan actions)
      (actions.foldl (Machine.after plan) machine) := by
  induction actions generalizing machine with
  | nil => exact .nil machine
  | cons action rest ih =>
    obtain ⟨enabled, later⟩ := Bool.and_eq_true_iff.mp possible
    refine .cons ⟨step_after action ?_ enabled, rfl⟩ (ih ?_ later)
    · rintro task rfl
      exact prepared task mem_cons_self
    · exact fun task member => prepared task (mem_cons_of_mem _ member)

/-- One CPU, registered. -/
def oneCpu : Machine :=
  ⟨⟨Scheduler.new.registerCpu 0 10 1, 2, [], fun _ => .outside⟩, fun _ => 0⟩

def firstUser : TaskControlBlock :=
  .newUser 2 ⟨0x1000, 0, 0x8000⟩ priorityDefault 0xA0 0x7000 1 false false

def secondUser : TaskControlBlock :=
  .newUser 3 ⟨0x10000, 0, 0x8000⟩ priorityDefault 0xA0 0x7000 2 false false

/-- Two user tasks take turns. -/
def turnActions : List Action :=
  [.createTask firstUser, .createTask secondUser, .addTask firstUser, .addTask secondUser,
    .interrupt 0 0x500 true true, .interrupt 0 0x600 true true]

/-- The second user task, at the same page-table root as the first one, runs after a barrier. -/
theorem flushed_turnActions :
    trace (some ⟨true, false, false, false⟩) 0
        (oneCpu.moves (some ⟨true, false, false, false⟩) turnActions) =
      [.did .userBarrier, .runs 2 true, .did .userBarrier, .runs 3 true] ∧
    Flushed (trace (some ⟨true, false, false, false⟩) 0
      (oneCpu.moves (some ⟨true, false, false, false⟩) turnActions)) := by
  have boot : BootSystem oneCpu.system := .register .new 0 10 rfl (by decide)
  have prepared : ∀ task, .createTask task ∈ turnActions → Prepared task := by
    intro _ member
    simp only [turnActions, List.mem_cons, Action.createTask.injEq, reduceCtorEq, or_false,
      List.not_mem_nil] at member
    rcases member with rfl | rfl <;> exact .user ..
  exact ⟨by decide +kernel, flushed_of_run rfl ⟨boot, fun _ => rfl⟩
    (run_moves prepared (by decide +kernel)) 0⟩

end Mmurtl.Amd64

/-
This file says once what each scheduler operation does to the task table.

Every operation that a task issues keeps the CPU records and changes at most two
tasks in place, except for the exit, which also answers the tasks it leaves
behind. The inversion lemmas here state the guards an operation passed and the
changed table as modifications of the old one; the invariants are proved from
them, never by unfolding an operation again.
-/

import Mmurtl.Library.Update
import Mmurtl.Scheduler.Core

namespace Mmurtl.Scheduler

open List

variable {scheduler next : Scheduler} {cpu : CpuIndex} {msg : Rqb}
  {result : Except RqbStatus (Option UInt32)}

/-! ### Changes of one task -/

/-- Make a task ready if it is in the given state. -/
def rouse (expected : TaskState) (task : TaskControlBlock) : TaskControlBlock :=
  if task.state = expected then { task with state := .ready } else task

/-- Queue a message. -/
def enqueue (msg : Rqb) (task : TaskControlBlock) : TaskControlBlock :=
  { task with inbox := task.inbox ++ [msg] }

/-- Queue a message and wake the receiver if it waits for one. -/
def deliver (msg : Rqb) (task : TaskControlBlock) : TaskControlBlock :=
  rouse .waitingRqb (enqueue msg task)

/-- Block a task on the reply of a receiver. -/
def block (receiver : Nat) (task : TaskControlBlock) : TaskControlBlock :=
  { task with state := .waitingReply, waitFor := receiver, reply := none }

/-- Fill the reply slot of a task that waits for a reply and wake it. -/
def answer (msg : Rqb) (task : TaskControlBlock) : TaskControlBlock :=
  rouse .waitingReply { task with reply := some msg }

/-- Answer a task with the abort notice if the exiting task still owes it a reply. -/
def abort (exiting : Nat) (task : TaskControlBlock) : TaskControlBlock :=
  if owed exiting task then answer (Rqb.abortNotice exiting task.id) task else task

/-- Mark a task as exited. -/
def exit (task : TaskControlBlock) : TaskControlBlock :=
  { task with state := .exited, inbox := [] }

theorem answer_eq (msg : Rqb) (task : TaskControlBlock) (waiting : task.state = .waitingReply) :
    answer msg task = { task with reply := some msg, state := .ready } := by
  simp only [answer, rouse, waiting, if_true]

variable {index : Nat}

/-- Two changes that agree on the task at an index change the table alike. -/
theorem modify_congr {tasks : List TaskControlBlock}
    {first second : TaskControlBlock → TaskControlBlock}
    (same : ∀ task, tasks[index]? = some task → first task = second task) :
    tasks.modify index first = tasks.modify index second := by
  refine ext_getElem? fun other => ?_
  rw [getElem?_modify, getElem?_modify]
  by_cases here : index = other
  · subst here
    cases found : tasks[index]? with
    | none => rfl
    | some task => simp [same task found]
  · simp [here]

theorem makeReady_snd (scheduler : Scheduler) (index : Nat) (expected : TaskState)
    (cpu : CpuIndex) :
    (scheduler.makeReady index expected cpu).2 = scheduler.modifyTask index (rouse expected) := by
  unfold makeReady
  cases found : scheduler.tasks[index]? with
  | none =>
    have short : scheduler.tasks.length ≤ index := List.getElem?_eq_none_iff.mp found
    simp [modifyTask, modify_eq_self short]
  | some task =>
    by_cases same : task.state = expected
    · have changed : scheduler.tasks.modify index ({ · with state := .ready }) =
          scheduler.tasks.modify index (rouse expected) :=
        modify_congr fun other here => by
          cases found.symm.trans here
          simp [rouse, same]
      simp [same, modifyTask, changed]
    · have unchanged : scheduler.tasks.modify index (rouse expected) =
          scheduler.tasks.modify index id :=
        modify_congr fun other here => by
          cases found.symm.trans here
          simp [rouse, same]
      simp [same, modifyTask, unchanged]

/-- The table after an accepted request, slot by slot. -/
theorem request_lookup {me : Nat} (apart : index ≠ me)
    (deliver block : TaskControlBlock → TaskControlBlock) (other : Nat) :
    ((scheduler.modifyTask index deliver).modifyTask me block).tasks[other]? =
      scheduler.tasks[other]?.map fun old =>
        if me = other then block old else if index = other then deliver old else old := by
  rw [modifyTask_map, modifyTask_map, Option.map_map]
  refine congrArg (Option.map · _) (funext fun old => ?_)
  by_cases mine : me = other
  · subst mine
    simp [apart]
  · simp [mine]

/-- The table after an exit, slot by slot. -/
theorem exit_lookup (tasks : List TaskControlBlock) (me exiting other : Nat) :
    ((tasks.modify me exit).map (abort exiting))[other]? = tasks[other]?.map fun old =>
      abort exiting (if me = other then exit old else old) := by
  rw [getElem?_map, getElem?_modify]
  by_cases same : me = other
  · simp [same, Function.comp_def]
  · simp [same]

/-- An exited task waits for nobody. -/
theorem abort_exit (exiting : Nat) (task : TaskControlBlock) :
    abort exiting (exit task) = exit task := by
  simp [abort, owed, exit]

/-! ### The current task -/

/-- A CPU's current task: its index in the table and its block. -/
def Current (scheduler : Scheduler) (cpu : CpuIndex) (index : Nat)
    (task : TaskControlBlock) : Prop :=
  (scheduler.cpus cpu).current = some index ∧ scheduler.tasks[index]? = some task

theorem Current.unique {first second : Nat} {task other : TaskControlBlock}
    (left : scheduler.Current cpu first task) (right : scheduler.Current cpu second other) :
    first = second ∧ task = other := by
  have index : first = second := Option.some.inj (left.1.symm.trans right.1)
  subst index
  exact ⟨rfl, Option.some.inj (left.2.symm.trans right.2)⟩

/-- A live task found by identifier. -/
theorem findLive_some {id : Nat} (found : scheduler.findLive id = some index) :
    ∃ task, scheduler.tasks[index]? = some task ∧ task.id = id ∧ task.state ≠ .exited := by
  unfold findLive at found
  rw [findIdx?_eq_some_iff_getElem] at found
  obtain ⟨bound, holds, _⟩ := found
  simp only [Bool.and_eq_true, beq_iff_eq, bne_iff_ne, ne_eq] at holds
  exact ⟨scheduler.tasks[index], List.getElem?_eq_getElem bound, holds.1, holds.2⟩

/-! ### What the operations do -/

/-- A request is refused and changes nothing, or it is queued, wakes a receiver that waits for
one and blocks its sender. -/
theorem postRequest_cases {receiver : Nat}
    (posted : scheduler.postRequest cpu receiver msg = some (result, next)) :
    (∃ status, result = .error status ∧ next = scheduler) ∨
      ∃ me sender index target, scheduler.Current cpu me sender ∧ receiver ≠ sender.id ∧
        scheduler.tasks[index]? = some target ∧ target.id = receiver ∧
        target.state ≠ .exited ∧ target.inbox.length < inboxCapacity ∧ (∃ kick, result = .ok kick) ∧
        next = (scheduler.modifyTask index (deliver (msg.address sender.id receiver))).modifyTask
          me (block receiver) := by
  simp only [postRequest, currentIdx, Option.bind_eq_bind, Option.bind_eq_some_iff] at posted
  obtain ⟨me, current, sender, here, posted⟩ := posted
  by_cases self : receiver = sender.id
  · rw [if_pos self] at posted
    cases posted
    exact Or.inl ⟨_, rfl, rfl⟩
  rw [if_neg self] at posted
  cases live : scheduler.findLive receiver with
  | none =>
    rw [live] at posted
    cases posted
    exact Or.inl ⟨_, rfl, rfl⟩
  | some index =>
    obtain ⟨target, found, targetId, alive⟩ := findLive_some live
    simp only [live, found, Option.bind_some] at posted
    by_cases full : target.inbox.length ≥ inboxCapacity
    · rw [if_pos full] at posted
      cases posted
      exact Or.inl ⟨_, rfl, rfl⟩
    rw [if_neg full] at posted
    injection posted with pair
    injection pair with outcome after
    have apart : me ≠ index := places_ne here found fun same => self (same ▸ targetId.symm)
    refine Or.inr ⟨me, sender, index, target, ⟨current, here⟩, self, found, targetId, alive,
      Nat.lt_of_not_le full, ⟨_, outcome.symm⟩, ?_⟩
    rw [← after, makeReady_snd]
    simp only [modifyTask]
    congr 1
    rw [modify_modify_ne _ _ _ apart, modify_modify_eq]
    rfl

/-- Taking a request pops the oldest one, or finds none and marks the caller if it blocks. -/
theorem takeRequest_cases {blocking : Bool} {result : Option Rqb}
    (taken : scheduler.takeRequest cpu blocking = some (result, next)) :
    ∃ me task, scheduler.Current cpu me task ∧
      ((∃ msg rest, task.inbox = msg :: rest ∧ result = some msg ∧
          next = scheduler.modifyTask me ({ · with inbox := rest })) ∨
        (task.inbox = [] ∧ result = none ∧ blocking = true ∧
          next = scheduler.modifyTask me ({ · with state := .waitingRqb })) ∨
        (task.inbox = [] ∧ result = none ∧ blocking = false ∧ next = scheduler)) := by
  simp only [takeRequest, currentIdx, Option.bind_eq_bind, Option.bind_eq_some_iff] at taken
  obtain ⟨me, current, task, here, taken⟩ := taken
  refine ⟨me, task, ⟨current, here⟩, ?_⟩
  cases inbox : task.inbox with
  | cons msg rest =>
    rw [inbox] at taken
    cases taken
    exact Or.inl ⟨msg, rest, rfl, rfl, rfl⟩
  | nil =>
    rw [inbox] at taken
    cases blocking with
    | true =>
      cases taken
      exact Or.inr (Or.inl ⟨rfl, rfl, rfl, rfl⟩)
    | false =>
      cases taken
      exact Or.inr (Or.inr ⟨rfl, rfl, rfl, rfl⟩)

/-- A reply is refused and changes nothing, or it fills the empty slot of a live task that is
blocked on the replier and wakes it. -/
theorem postReply_cases {sender : Nat}
    (replied : scheduler.postReply cpu sender msg = some (result, next)) :
    (∃ status, result = .error status ∧ next = scheduler) ∨
      ∃ me replier index task, scheduler.Current cpu me replier ∧
        scheduler.tasks[index]? = some task ∧ task.id = sender ∧ task.state = .waitingReply ∧
        task.waitFor = replier.id ∧ task.reply = none ∧ (∃ kick, result = .ok kick) ∧
        next = scheduler.modifyTask index (answer (msg.address replier.id sender)) := by
  simp only [postReply, currentIdx, Option.bind_eq_bind, Option.bind_eq_some_iff] at replied
  obtain ⟨me, current, replier, here, replied⟩ := replied
  cases live : scheduler.findLive sender with
  | none =>
    rw [live] at replied
    cases replied
    exact Or.inl ⟨_, rfl, rfl⟩
  | some index =>
    obtain ⟨task, found, taskId, _⟩ := findLive_some live
    simp only [live, found, Option.bind_some] at replied
    by_cases refused : task.state ≠ .waitingReply ∨ task.waitFor ≠ replier.id ∨
        task.reply.isSome
    · rw [if_pos refused] at replied
      cases replied
      exact Or.inl ⟨_, rfl, rfl⟩
    rw [if_neg refused] at replied
    simp only [ne_eq, not_or, not_not, Bool.not_eq_true, Option.isSome_eq_false_iff,
      Option.isNone_iff_eq_none] at refused
    injection replied with pair
    injection pair with outcome after
    refine Or.inr ⟨me, replier, index, task, ⟨current, here⟩, found, taskId, refused.1,
      refused.2.1, refused.2.2, ⟨_, outcome.symm⟩, ?_⟩
    rw [← after, makeReady_snd]
    simp only [modifyTask, modify_modify_eq]
    rfl

/-- The exit loop over the first indices of the table answers exactly the tasks there that the
exiting task owes. -/
theorem foldl_failWaiter (exiting : Nat) (cpu : CpuIndex) (scheduler : Scheduler) (count : Nat) :
    ((List.range count).foldl (failWaiter exiting cpu) (none, scheduler)).2.cpus = scheduler.cpus ∧
      ((List.range count).foldl (failWaiter exiting cpu) (none, scheduler)).2 =
        { scheduler with tasks := ((List.range count).foldl (failWaiter exiting cpu)
            (none, scheduler)).2.tasks } ∧
      ∀ index, ((List.range count).foldl (failWaiter exiting cpu)
          (none, scheduler)).2.tasks[index]? =
        if index < count then scheduler.tasks[index]?.map (abort exiting)
        else scheduler.tasks[index]? := by
  induction count with
  | zero => simp
  | succ count ih =>
    obtain ⟨cpus, rest, tasks⟩ := ih
    rw [range_succ, foldl_append, foldl_cons, foldl_nil]
    generalize (List.range count).foldl (failWaiter exiting cpu) (none, scheduler) = before
      at cpus rest tasks
    have here := tasks count
    rw [if_neg (Nat.lt_irrefl count)] at here
    have after : (failWaiter exiting cpu before count).2 =
        before.2.modifyTask count (abort exiting) := by
      unfold failWaiter
      cases found : before.2.tasks[count]? with
      | none =>
        have short : before.2.tasks.length ≤ count := List.getElem?_eq_none_iff.mp found
        simp [modifyTask, modify_eq_self short]
      | some task =>
        by_cases owes : owed exiting task
        · simp only [Option.any_some, owes, if_true, makeReady_snd, modifyTask, modify_modify_eq]
          congr 1
          refine modify_congr fun other there => ?_
          cases found.symm.trans there
          simp [abort, owes, answer]
        · have unchanged : before.2.tasks.modify count (abort exiting) =
              before.2.tasks.modify count id :=
            modify_congr fun other there => by
              cases found.symm.trans there
              simp [abort, owes]
          simp [owes, modifyTask, unchanged]
    rw [after]
    refine ⟨cpus, ?_, fun index => ?_⟩
    · rw [rest]
      rfl
    · rw [modifyTask_task, tasks index]
      by_cases same : count = index
      · subst same
        simp
      · rw [if_neg same]
        by_cases below : index < count
        · rw [if_pos below, if_pos (Nat.lt_succ_of_lt below)]
        · rw [if_neg below, if_neg (by omega)]

/-- An exit marks the caller and answers every task it still owes. -/
theorem markExited_cases {kick : Option UInt32}
    (marked : scheduler.markExited cpu = some (kick, next)) :
    ∃ me task, scheduler.Current cpu me task ∧ next = { scheduler with
        tasks := (scheduler.tasks.modify me exit).map (abort task.id) } := by
  simp only [markExited, currentIdx, Option.bind_eq_bind, Option.bind_eq_some_iff] at marked
  obtain ⟨me, current, task, here, marked⟩ := marked
  refine ⟨me, task, ⟨current, here⟩, ?_⟩
  obtain ⟨_, rest, tasks⟩ := foldl_failWaiter task.id cpu (scheduler.modifyTask me exit)
    (scheduler.modifyTask me exit).tasks.length
  have after : next = ((List.range (scheduler.modifyTask me exit).tasks.length).foldl
      (failWaiter task.id cpu) (none, scheduler.modifyTask me exit)).2 :=
    (congrArg Prod.snd (Option.some.inj marked)).symm
  rw [after, rest]
  simp only [modifyTask]
  congr 1
  refine ext_getElem? fun index => ?_
  rw [getElem?_map]
  refine (tasks index).trans ?_
  by_cases bound : index < (scheduler.modifyTask me exit).tasks.length
  · rw [if_pos bound]
    rfl
  · rw [if_neg bound]
    have missing : (scheduler.modifyTask me exit).tasks[index]? = none :=
      List.getElem?_eq_none_iff.mpr (Nat.le_of_not_lt bound)
    rw [missing]
    exact (congrArg (Option.map _) missing).symm

theorem sleepUntil_cases {deadline : UInt64}
    (slept : scheduler.sleepUntil cpu deadline = some next) :
    ∃ me task, scheduler.Current cpu me task ∧
      next = scheduler.modifyTask me ({ · with wakeTick := deadline, state := .sleeping }) := by
  simp only [sleepUntil, currentIdx, Option.bind_eq_bind, Option.bind_eq_some_iff] at slept
  obtain ⟨me, current, task, here, slept⟩ := slept
  exact ⟨me, task, ⟨current, here⟩, (Option.some.inj slept).symm⟩

/-- The check after the yield of a send takes the reply, or finds none and blocks again. -/
theorem recheckReply_cases {result : Option Rqb}
    (checked : scheduler.recheckReply cpu = some (result, next)) :
    ∃ me task, scheduler.Current cpu me task ∧ result = task.reply ∧
      ((∃ reply, task.reply = some reply ∧
          next = scheduler.modifyTask me ({ · with reply := none })) ∨ (task.reply = none ∧
          next = scheduler.modifyTask me ({ · with state := .waitingReply }))) := by
  simp only [recheckReply, currentIdx, Option.bind_eq_bind, Option.bind_eq_some_iff] at checked
  obtain ⟨me, current, task, here, checked⟩ := checked
  refine ⟨me, task, ⟨current, here⟩, ?_⟩
  cases reply : task.reply with
  | some msg =>
    rw [reply] at checked
    cases checked
    exact ⟨rfl, Or.inl ⟨msg, rfl, rfl⟩⟩
  | none =>
    rw [reply] at checked
    cases checked
    exact ⟨rfl, Or.inr ⟨rfl, rfl⟩⟩

/-- A new task takes the slot of a reaped task or goes to the end of the table. -/
theorem addTask_cases (scheduler : Scheduler) (task : TaskControlBlock) :
    (∃ index old, scheduler.tasks[index]? = some old ∧ old.state = .exited ∧ old.reaped = true ∧
        scheduler.addTask task = { scheduler with tasks := scheduler.tasks.set index task }) ∨
      scheduler.addTask task = { scheduler with tasks := scheduler.tasks ++ [task] } := by
  unfold addTask
  cases found : scheduler.tasks.findIdx? fun other => other.state == .exited && other.reaped with
  | none => exact Or.inr rfl
  | some index =>
    rw [findIdx?_eq_some_iff_getElem] at found
    obtain ⟨bound, holds, _⟩ := found
    simp only [Bool.and_eq_true, beq_iff_eq] at holds
    exact Or.inl ⟨index, scheduler.tasks[index], List.getElem?_eq_getElem bound, holds.1,
      holds.2, rfl⟩

/-- Where the tasks of the table come from when one is added: the new one takes a released
slot or the end of the table. -/
theorem addTask_task (scheduler : Scheduler) (task : TaskControlBlock) :
    ∃ slot : Nat, (scheduler.addTask task).tasks[slot]? = some task ∧
      (∀ old, scheduler.tasks[slot]? = some old → old.state = .exited ∧ old.reaped = true) ∧
      ∀ index, index ≠ slot → (scheduler.addTask task).tasks[index]? = scheduler.tasks[index]? := by
  rcases addTask_cases scheduler task with ⟨slot, _, found, exited, reaped, added⟩ | added
  · refine ⟨slot, ?_, ?_, ?_⟩
    · rw [added, getElem?_set_self (List.getElem?_eq_some_iff.mp found).1]
    · intro other otherFound
      rw [found] at otherFound
      cases otherFound
      exact ⟨exited, reaped⟩
    · intro index apart
      rw [added, getElem?_set_ne (Ne.symm apart)]
  · refine ⟨scheduler.tasks.length, ?_, ?_, ?_⟩
    · rw [added]
      simp
    · intro _ otherFound
      simp at otherFound
    · intro _ apart
      rw [added]
      rcases Nat.lt_or_gt_of_ne apart with below | above
      · exact getElem?_append_left below
      · simp [getElem?_append_right (Nat.le_of_lt above),
          List.getElem?_eq_none (Nat.le_of_lt above), Nat.sub_ne_zero_of_lt above]

/-- A task of the table is the new one or was there before. -/
theorem origin_of_slot {slot : Nat} {task other : TaskControlBlock}
    (added : next.tasks[slot]? = some task)
    (elsewhere : ∀ index, index ≠ slot → next.tasks[index]? = scheduler.tasks[index]?)
    (found : next.tasks[index]? = some other) :
    index = slot ∧ other = task ∨ index ≠ slot ∧ scheduler.tasks[index]? = some other := by
  by_cases same : index = slot
  · subst same
    exact Or.inl ⟨rfl, Option.some.inj (found.symm.trans added)⟩
  · rw [elsewhere index same] at found
    exact Or.inr ⟨same, found⟩

theorem addTask_cpus (scheduler : Scheduler) (task : TaskControlBlock) :
    (scheduler.addTask task).cpus = scheduler.cpus := by
  rcases addTask_cases scheduler task with ⟨_, _, _, _, _, added⟩ | added <;> rw [added]

/-- The reaper's walk releases some of the tasks that have exited and left their CPU. -/
theorem collectTasks_task (out : List Reapable) (tasks : List TaskControlBlock) (index : Nat) :
    (collectTasks out tasks).2[index]? = tasks[index]? ∨
      ∃ task, tasks[index]? = some task ∧ collectable task = true ∧
        (collectTasks out tasks).2[index]? = some (release task) := by
  induction tasks generalizing out index with
  | nil => exact Or.inl rfl
  | cons task rest ih =>
    unfold collectTasks
    by_cases collect : collectable task
    · rw [if_pos collect]
      by_cases full : out.length = reaperBatch
      · rw [if_pos full]
        exact Or.inl rfl
      · rw [if_neg full]
        cases index with
        | zero => exact Or.inr ⟨task, rfl, collect, rfl⟩
        | succ index => exact ih _ index
    · rw [if_neg collect]
      cases index with
      | zero => exact Or.inl rfl
      | succ index => exact ih _ index

/-- What the reaper leaves in a slot of the table. -/
def collected (scheduler : Scheduler) (index : Nat) (task : TaskControlBlock) :
    TaskControlBlock :=
  if scheduler.collectExited.2.tasks[index]? = some (release task) then release task else task

theorem collected_fields (scheduler : Scheduler) (index : Nat) (task : TaskControlBlock) :
    (collected scheduler index task).id = task.id ∧
      (collected scheduler index task).inbox = task.inbox := by
  unfold collected
  split <;> exact ⟨rfl, rfl⟩

theorem collectExited_task (scheduler : Scheduler) (index : Nat) :
    scheduler.collectExited.2.tasks[index]? =
      scheduler.tasks[index]?.map (collected scheduler index) := by
  have walked := collectTasks_task [] scheduler.tasks index
  show (collectTasks [] scheduler.tasks).2[index]? = _
  rcases walked with same | ⟨task, found, _, released⟩
  · show _ = Option.map (fun task =>
      if (collectTasks [] scheduler.tasks).2[index]? = some (release task) then release task
      else task) scheduler.tasks[index]?
    rw [same]
    cases scheduler.tasks[index]? with
    | none => rfl
    | some task =>
      by_cases reaped : task = release task
      · simp [← reaped]
      · simp [reaped]
  · rw [released, found]
    exact (congrArg some (if_pos released)).symm

end Mmurtl.Scheduler

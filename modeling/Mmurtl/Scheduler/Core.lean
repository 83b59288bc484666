/-
This file models the global scheduler of `scheduler/mod.rs` and the operations it
runs under its lock.

Every operation takes the scheduler before it and returns the scheduler after it.
`none` stands for a panic: a CPU without a current task, or a table index out of
bounds. The statics `JIFFIES` and `REAPING`, which the operations update under the
lock, are fields of the scheduler. What `on_tick` asks of the hardware (address
space, predictor, interrupts) is returned as a list of calls in program order, in
the amd64 build; nothing in the scheduler reads it back.
-/

import Mmurtl.Scheduler.Task

namespace Mmurtl

/-! ### State -/

/-- The number of queued, unreceived requests a task may have. -/
def inboxCapacity : Nat := 32

/-- The number of tasks one reaper batch holds. -/
def reaperBatch : Nat := 16

def schedulerFrequencyHz : UInt64 := 100

/-- The scheduling state of one CPU. -/
structure PerCpu where
  registered : Bool
  hwId : UInt32
  current : Option Nat
  idleIdx : Nat
  deriving DecidableEq, Repr

def PerCpu.empty : PerCpu where
  registered := false
  hwId := 0
  current := none
  idleIdx := 0

/-- The global scheduler. -/
structure Scheduler where
  tasks : List TaskControlBlock
  cpus : CpuIndex → PerCpu
  rrCursor : Nat
  tickCount : UInt64
  initialized : Bool
  jiffies : UInt64
  reaping : Nat

namespace Scheduler

def new : Scheduler where
  tasks := []
  cpus := fun _ => PerCpu.empty
  rrCursor := 0
  tickCount := 0
  initialized := false
  jiffies := 0
  reaping := 0

section

variable (scheduler : Scheduler)
include scheduler

/-- Change one task of the table in place. -/
def modifyTask (index : Nat) (change : TaskControlBlock → TaskControlBlock) : Scheduler :=
  { scheduler with tasks := scheduler.tasks.modify index change }

@[simp] theorem modifyTask_cpus (index : Nat) (change : TaskControlBlock → TaskControlBlock) :
    (scheduler.modifyTask index change).cpus = scheduler.cpus := rfl

theorem modifyTask_task (index other : Nat) (change : TaskControlBlock → TaskControlBlock) :
    (scheduler.modifyTask index change).tasks[other]? =
      if index = other then scheduler.tasks[other]?.map change else scheduler.tasks[other]? := by
  simp only [modifyTask, List.getElem?_modify]
  split <;> simp

/-- The table after a change of one task, slot by slot. -/
theorem modifyTask_map (index : Nat) (change : TaskControlBlock → TaskControlBlock) (other : Nat) :
    (scheduler.modifyTask index change).tasks[other]? =
      scheduler.tasks[other]?.map fun task => if index = other then change task else task := by
  rw [modifyTask_task]
  by_cases same : index = other <;> simp [same]

/-! ### The CPUs and the task table -/

/-- Register a CPU, adopting its executing context as its pinned idle task. -/
def registerCpu (cpu : CpuIndex) (hwId : UInt32) (id : Nat) : Scheduler :=
  { scheduler with
    tasks := scheduler.tasks ++ [TaskControlBlock.adoptCurrent id priorityIdle cpu]
    cpus := Function.update scheduler.cpus cpu
      { registered := true
        hwId := hwId
        current := some scheduler.tasks.length
        idleIdx := scheduler.tasks.length } }

/-- Add a task, reusing the slot of one the reaper has released. -/
def addTask (task : TaskControlBlock) : Scheduler :=
  match scheduler.tasks.findIdx? fun other => other.state == .exited && other.reaped with
  | some index => { scheduler with tasks := scheduler.tasks.set index task }
  | none => { scheduler with tasks := scheduler.tasks ++ [task] }

end

/-- The resources of an exited task, handed to the reaper. -/
structure Reapable where
  kstackPhys : UInt64
  kstackVirt : UInt64
  space : UInt64
  slot : Option UInt64
  deriving DecidableEq, Repr

def reapable (task : TaskControlBlock) : Reapable where
  kstackPhys := task.kstackPhys
  kstackVirt := task.kernelStackBottom
  space := task.addressSpace
  slot := task.userSlot

/-- A task whose resources the reaper has taken. -/
def release (task : TaskControlBlock) : TaskControlBlock :=
  { task with reaped := true, kstackPhys := 0, addressSpace := 0, userSlot := none }

def collectable (task : TaskControlBlock) : Bool :=
  task.state == .exited && !task.reaped && task.onCpu.isNone

/-- The reaper's walk over the table: it takes exited tasks no CPU is still running on until
its batch is full. -/
def collectTasks : List Reapable → List TaskControlBlock → List Reapable × List TaskControlBlock
  | out, [] => (out, [])
  | out, task :: rest =>
    if collectable task then
      if out.length = reaperBatch then
        (out, task :: rest)
      else
        let (collected, remaining) := collectTasks (out ++ [reapable task]) rest
        (collected, release task :: remaining)
    else
      let (collected, remaining) := collectTasks out rest
      (collected, task :: remaining)

section

variable (scheduler : Scheduler)

/-- Hand the reaper the resources of exited tasks. -/
def collectExited : List Reapable × Scheduler :=
  let (collected, remaining) := collectTasks [] scheduler.tasks
  (collected,
    { scheduler with tasks := remaining, reaping := scheduler.reaping + collected.length })

/-- Whether a CPU runs its own idle task. -/
def idling (cpu : CpuIndex) : Bool :=
  (scheduler.cpus cpu).registered &&
    (scheduler.cpus cpu).current == some (scheduler.cpus cpu).idleIdx

/-- A CPU other than the excluded one that runs its idle task, by hardware identifier. -/
def findIdleCpu (exclude : CpuIndex) : Option UInt32 :=
  ((List.finRange maxCpus).find? fun cpu => cpu != exclude && scheduler.idling cpu).map
    fun cpu => (scheduler.cpus cpu).hwId

/-- The identifier of the task running on a CPU. -/
def currentId (cpu : CpuIndex) : Option Nat :=
  match (scheduler.cpus cpu).current with
  | some index => scheduler.tasks[index]?.map TaskControlBlock.id
  | none => some 0

/-- The index of the task running on a CPU. -/
def currentIdx (cpu : CpuIndex) : Option Nat :=
  (scheduler.cpus cpu).current

/-- The index of a task that has not exited, by identifier. -/
def findLive (id : Nat) : Option Nat :=
  scheduler.tasks.findIdx? fun task => task.id == id && task.state != .exited

end

/-! ### Context switches -/

/-- What a context switch asks of the hardware. -/
inductive ArchCall where
  | sendReschedIpi (hwId : UInt32)
  | setCurrentTask (cpu : CpuIndex) (id : Nat)
  | contextSwitch (cpu : CpuIndex) (user : Bool) (id : Nat)
  | switchAddressSpace (cpu : CpuIndex) (space : UInt64)
  | setUserCounterAccess (allowed : Bool)
  | prepareTask (disable : Bool) (contextPtr : UInt64)
  | onSwitchToUser (cpu : CpuIndex) (kernelStackTop : UInt64)
  deriving DecidableEq, Repr

/-- Tick accounting: every timer tick counts, CPU 0's also advances the clock. -/
def countTick (scheduler : Scheduler) (cpu : CpuIndex) (timer : Bool) : Scheduler :=
  if timer then
    { scheduler with
      tickCount := scheduler.tickCount + 1
      jiffies := if cpu.val = 0 then scheduler.jiffies + 1 else scheduler.jiffies }
  else scheduler

/-- Whether a task's sleep is over. -/
def due (now : UInt64) (task : TaskControlBlock) : Bool :=
  task.state == .sleeping && task.wakeTick ≤ now

def wake (now : UInt64) (task : TaskControlBlock) : TaskControlBlock :=
  if due now task then { task with state := .ready } else task

/-- Wake the sleepers whose deadline has passed. -/
def wakeSleepers (scheduler : Scheduler) : Scheduler :=
  { scheduler with tasks := scheduler.tasks.map (wake scheduler.jiffies) }

/-- The reschedule interrupts for all but one of the woken sleepers. -/
def kickIdle (scheduler : Scheduler) (cpu : CpuIndex) : Nat → List CpuIndex → List ArchCall
  | _, [] => []
  | woken, other :: rest =>
    if woken ≤ 1 then []
    else if other != cpu && scheduler.idling other then
      .sendReschedIpi (scheduler.cpus other).hwId :: kickIdle scheduler cpu (woken - 1) rest
    else kickIdle scheduler cpu woken rest

/-- The interrupted context, saved into the task that was running. -/
def save (sp : UInt64) (timer : Bool) (task : TaskControlBlock) : TaskControlBlock :=
  { task with
    contextPtr := sp
    onCpu := none
    totalTicks := if timer then task.totalTicks + 1 else task.totalTicks
    state := if task.state = .running then .ready else task.state }

/-- Save the interrupted context of a CPU, if it was running a task. -/
def saveCurrent (scheduler : Scheduler) (cpu : CpuIndex) (sp : UInt64) (timer : Bool) :
    Option Scheduler :=
  match (scheduler.cpus cpu).current with
  | none => some scheduler
  | some current =>
    if current < scheduler.tasks.length then some (scheduler.modifyTask current (save sp timer))
    else none

/-- Whether round robin may pick a task for a CPU. -/
def pickable (cpu : CpuIndex) (task : TaskControlBlock) : Bool :=
  task.state == .ready && task.onCpu.isNone && task.priority != priorityIdle &&
    task.pinnedCpu.all (· == cpu)

/-- Pick the next task for a CPU: round robin over the pickable tasks, else its idle task. -/
def pickNext (scheduler : Scheduler) (cpu : CpuIndex) : Nat × Scheduler :=
  let count := scheduler.tasks.length
  let order := (List.range count).map fun offset => (scheduler.rrCursor + (offset + 1)) % count
  match order.find? fun index => scheduler.tasks[index]?.any (pickable cpu) with
  | some index => (index, { scheduler with rrCursor := index })
  | none => ((scheduler.cpus cpu).idleIdx, scheduler)

/-- Make a task the one its CPU runs. -/
def resume (cpu : CpuIndex) (task : TaskControlBlock) : TaskControlBlock :=
  { task with state := .running, onCpu := some cpu }

/-- The hardware calls of a switch to a task. -/
def switchCalls (scheduler : Scheduler) (cpu : CpuIndex) (next : Nat) (task : TaskControlBlock) :
    List ArchCall :=
  [.setCurrentTask cpu task.id] ++
    (if (scheduler.cpus cpu).current = some next then [] else
      [.contextSwitch cpu task.user task.id]) ++
    [.switchAddressSpace cpu task.addressSpace,
      .setUserCounterAccess (task.user && task.highResTime),
      .prepareTask task.specStoreBypassDisable task.contextPtr] ++
    (if task.user then [.onSwitchToUser cpu task.kernelStackTop] else [])

/-- What a context switch returns: the stack to continue on, the hardware calls made, and the
scheduler after it. -/
structure TickOutcome where
  sp : UInt64
  calls : List ArchCall
  scheduler : Scheduler

section

variable (scheduler : Scheduler)

/-- The scheduler at the moment a context switch picks its next task. -/
def beforePick (cpu : CpuIndex) (sp : UInt64) (timer : Bool) : Option Scheduler :=
  (scheduler.countTick cpu timer).wakeSleepers.saveCurrent cpu sp timer

/-- Hand a CPU to the task at an index of the table. -/
def dispatch (cpu : CpuIndex) (next : Nat) : Scheduler :=
  { scheduler.modifyTask next (resume cpu) with
    cpus := Function.update scheduler.cpus cpu
      { scheduler.cpus cpu with current := some next } }

/-- Timer tick, reschedule interrupt or voluntary yield of a CPU. -/
def onTick (cpu : CpuIndex) (sp : UInt64) (timer ipiAvailable : Bool) : Option TickOutcome :=
  if !(scheduler.cpus cpu).registered || scheduler.tasks.isEmpty then
    some ⟨sp, [], scheduler⟩
  else do
    let counted := scheduler.countTick cpu timer
    let woken := counted.tasks.countP (due counted.jiffies)
    let kicks := if woken > 1 && ipiAvailable then
      counted.kickIdle cpu woken (List.finRange maxCpus) else []
    let saved ← scheduler.beforePick cpu sp timer
    let (next, picked) := saved.pickNext cpu
    let task ← picked.tasks[next]?
    return ⟨task.contextPtr, kicks ++ picked.switchCalls cpu next task, picked.dispatch cpu next⟩

/-! ### Request blocks -/

/-- If a task is in the given state, make it ready; name an idle CPU to kick. -/
def makeReady (index : Nat) (expected : TaskState) (cpu : CpuIndex) : Option UInt32 × Scheduler :=
  if scheduler.tasks[index]?.any (·.state == expected) then
    ((scheduler.modifyTask index ({ · with state := .ready })).findIdleCpu cpu,
      scheduler.modifyTask index ({ · with state := .ready }))
  else (none, scheduler)

/-- Queue a message for a receiver and block the caller until it replies. -/
def postRequest (cpu : CpuIndex) (receiver : Nat) (msg : Rqb) :
    Option (Except RqbStatus (Option UInt32) × Scheduler) := do
  let me ← scheduler.currentIdx cpu
  let sender ← scheduler.tasks[me]?
  if receiver = sender.id then
    return (.error .invalidParam, scheduler)
  match scheduler.findLive receiver with
  | none => return (.error .notFound, scheduler)
  | some index =>
    let target ← scheduler.tasks[index]?
    if target.inbox.length ≥ inboxCapacity then
      return (.error .busy, scheduler)
    let queued := scheduler.modifyTask index fun task =>
      { task with inbox := task.inbox ++ [msg.address sender.id receiver] }
    let blocked := queued.modifyTask me fun task =>
      { task with state := .waitingReply, waitFor := receiver, reply := none }
    let (kick, woken) := blocked.makeReady index .waitingRqb cpu
    return (.ok kick, woken)

/-- Pop a pending request of the current task, or mark it as waiting for one. -/
def takeRequest (cpu : CpuIndex) (block : Bool) : Option (Option Rqb × Scheduler) := do
  let me ← scheduler.currentIdx cpu
  let task ← scheduler.tasks[me]?
  match task.inbox with
  | msg :: rest => return (some msg, scheduler.modifyTask me ({ · with inbox := rest }))
  | [] =>
    if block then return (none, scheduler.modifyTask me ({ · with state := .waitingRqb }))
    else return (none, scheduler)

/-- Deliver a reply to a sender, which must be blocked waiting on the current task. -/
def postReply (cpu : CpuIndex) (sender : Nat) (msg : Rqb) :
    Option (Except RqbStatus (Option UInt32) × Scheduler) := do
  let me ← scheduler.currentIdx cpu
  let replier ← scheduler.tasks[me]?
  match scheduler.findLive sender with
  | none => return (.error .notFound, scheduler)
  | some index =>
    let task ← scheduler.tasks[index]?
    if task.state ≠ .waitingReply ∨ task.waitFor ≠ replier.id ∨ task.reply.isSome then
      return (.error .invalidParam, scheduler)
    let replied := scheduler.modifyTask index
      ({ · with reply := some (msg.address replier.id sender) })
    let (kick, woken) := replied.makeReady index .waitingReply cpu
    return (.ok kick, woken)

end

/-- Whether a task is blocked on an answer of the given task. -/
def owed (exiting : Nat) (task : TaskControlBlock) : Bool :=
  task.state == .waitingReply && task.waitFor == exiting && task.reply.isNone

/-- One turn of the exit loop: fail the request of the task at an index, if the exiting task
still owes it an answer. -/
def failWaiter (exiting : Nat) (cpu : CpuIndex) (outcome : Option UInt32 × Scheduler)
    (index : Nat) : Option UInt32 × Scheduler :=
  if outcome.2.tasks[index]?.any (owed exiting) then
    let noticed := outcome.2.modifyTask index fun task =>
      { task with reply := some (Rqb.abortNotice exiting task.id) }
    let (kick, woken) := noticed.makeReady index .waitingReply cpu
    (outcome.1.or kick, woken)
  else outcome

/-- Mark the current task as exited and fail every request it can no longer answer. -/
def markExited (scheduler : Scheduler) (cpu : CpuIndex) : Option (Option UInt32 × Scheduler) := do
  let me ← scheduler.currentIdx cpu
  let task ← scheduler.tasks[me]?
  let exited := scheduler.modifyTask me ({ · with state := .exited, inbox := [] })
  return (List.range exited.tasks.length).foldl (failWaiter task.id cpu) (none, exited)

/-- Put the current task to sleep. -/
def sleepUntil (scheduler : Scheduler) (cpu : CpuIndex) (deadline : UInt64) : Option Scheduler := do
  let me ← scheduler.currentIdx cpu
  let _ ← scheduler.tasks[me]?
  return scheduler.modifyTask me ({ · with wakeTick := deadline, state := .sleeping })

/-- The check of `send_rqb` after its yield: take the reply, or block again. -/
def recheckReply (scheduler : Scheduler) (cpu : CpuIndex) : Option (Option Rqb × Scheduler) := do
  let me ← scheduler.currentIdx cpu
  let task ← scheduler.tasks[me]?
  match task.reply with
  | some reply => return (some reply, scheduler.modifyTask me ({ · with reply := none }))
  | none => return (none, scheduler.modifyTask me ({ · with state := .waitingReply }))

end Scheduler

end Mmurtl

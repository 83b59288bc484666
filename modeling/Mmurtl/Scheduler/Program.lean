/-
This file models the tasks that run on the scheduler: the code of `send_rqb`,
`receive_rqb`, `try_receive_rqb`, `reply_rqb`, `sleep_ms` and `exit_current`, cut
at the points where the scheduler lock is free.

A task is somewhere in that code, recorded by its identifier; identifiers are never
handed out twice. One action is one lock-protected step of the task a CPU runs, a
context switch that interrupts it anywhere, or a step of a task's creation. An
idle context takes no part in the calls: it is only switched away from and back to.
-/

import Mmurtl.Scheduler.Exclusive

namespace Mmurtl.Scheduler

open Transition

/-! ### Where a task is -/

/-- A point of the interface functions at which the scheduler lock is free. -/
inductive Pc where
  /-- Not inside an interface function. -/
  | outside
  /-- `send_rqb` has posted its request, or blocked again, and is about to yield. -/
  | sendYield (receiver : Nat)
  /-- `send_rqb` is back from its yield and about to check its reply slot. -/
  | sendCheck (receiver : Nat)
  /-- `receive_rqb` found no request and is about to yield. -/
  | receiveYield
  /-- `receive_rqb` is back from its yield and about to take a request. -/
  | receiveTake
  /-- `sleep_ms` is about to compare the clock with its deadline. -/
  | sleepTest (deadline : UInt64)
  /-- `sleep_ms` found its deadline ahead and is about to go to sleep. -/
  | sleepCall (deadline : UInt64)
  /-- `sleep_ms` has marked its task and is about to yield. -/
  | sleepYield (deadline : UInt64)
  /-- `exit_current` has marked its task and yields for ever. -/
  | exiting
  deriving DecidableEq

/-- The receiver of a posted request whose `send_rqb` has not returned. -/
def Pc.sendingTo : Pc → Option Nat
  | .sendYield receiver => some receiver
  | .sendCheck receiver => some receiver
  | _ => none

/-- Whether a task is about to check its reply slot. -/
def Pc.checks : Pc → Bool
  | .sendCheck _ => true
  | _ => false

/-- Where a task continues after a yield; `none` where its code does not yield. -/
def Pc.afterYield : Pc → Option Pc
  | .outside => some .outside
  | .sendYield receiver => some (.sendCheck receiver)
  | .receiveYield => some .receiveTake
  | .sleepYield deadline => some (.sleepTest deadline)
  | .exiting => some .exiting
  | _ => none

/-! ### The system -/

/-- The scheduler, the identifier counter, the tasks built but not yet added, and where every
task is. -/
structure System where
  scheduler : Scheduler
  nextId : Nat
  prepared : List TaskControlBlock
  pc : Nat → Pc

/-- What an interface function returns to its caller. -/
inductive Outcome where
  /-- The step does not return to the caller. -/
  | silent
  /-- `send_rqb` returns a status and leaves a message in its argument. -/
  | sendReturned (status : RqbStatus) (rqb : Rqb)
  | received (msg : Rqb)
  | tried (msg : Option Rqb)
  | replied (status : RqbStatus)
  deriving DecidableEq

/-- One step of the system. -/
inductive Action where
  /-- A timer tick or reschedule interrupt. -/
  | interrupt (cpu : CpuIndex) (sp : UInt64) (timer ipiAvailable : Bool)
  /-- The current task yields. -/
  | yield (cpu : CpuIndex) (sp : UInt64) (ipiAvailable : Bool)
  /-- A task is built, with a fresh identifier. -/
  | createTask (task : TaskControlBlock)
  | addTask (task : TaskControlBlock)
  | collectExited
  /-- `send_rqb` posts its request. -/
  | send (cpu : CpuIndex) (receiver : Nat) (msg : Rqb)
  /-- `send_rqb` checks its reply slot. -/
  | recheck (cpu : CpuIndex)
  /-- `receive_rqb` takes a request or blocks. -/
  | receive (cpu : CpuIndex)
  | tryReceive (cpu : CpuIndex)
  | reply (cpu : CpuIndex) (sender : Nat) (msg : Rqb)
  /-- `sleep_ms` computes its deadline. -/
  | sleep (cpu : CpuIndex) (ms : UInt64)
  /-- `sleep_ms` compares the clock with its deadline. -/
  | sleepTest (cpu : CpuIndex)
  /-- `sleep_ms` goes to sleep. -/
  | sleepCall (cpu : CpuIndex)
  | exit (cpu : CpuIndex)

/-- The CPU whose current task takes the step. -/
def Action.cpu : Action → Option CpuIndex
  | .interrupt cpu _ _ _ => some cpu
  | .yield cpu _ _ => some cpu
  | .send cpu _ _ => some cpu
  | .recheck cpu => some cpu
  | .receive cpu => some cpu
  | .tryReceive cpu => some cpu
  | .reply cpu _ _ => some cpu
  | .sleep cpu _ => some cpu
  | .sleepTest cpu => some cpu
  | .sleepCall cpu => some cpu
  | .exit cpu => some cpu
  | .createTask _ => none
  | .addTask _ => none
  | .collectExited => none

/-- The deadline of a sleep: at least one tick from now. -/
def sleepDeadline (now ms : UInt64) : UInt64 :=
  now + max ((ms * schedulerFrequencyHz + 999) / 1000) 1

namespace System

/-- The task a CPU runs. -/
def currentTask (system : System) (cpu : CpuIndex) : Option TaskControlBlock :=
  (system.scheduler.cpus cpu).current.bind fun index => system.scheduler.tasks[index]?

/-- The task a CPU runs, unless it is the CPU's idle task. -/
def caller (system : System) (cpu : CpuIndex) : Option TaskControlBlock :=
  if (system.scheduler.cpus cpu).current = some (system.scheduler.cpus cpu).idleIdx then none
  else system.currentTask cpu

/-- Continue with another scheduler and a task at another point of its code. -/
def goto (system : System) (scheduler : Scheduler) (id : Nat) (pc : Pc) : System :=
  { system with scheduler := scheduler, pc := Function.update system.pc id pc }

/-- A context switch; the task it takes the CPU from stays where it is. -/
def interrupt (system : System) (cpu : CpuIndex) (sp : UInt64) (timer ipiAvailable : Bool) :
    Option System :=
  (system.scheduler.onTick cpu sp timer ipiAvailable).map fun outcome =>
    { system with scheduler := outcome.scheduler }

/-- What an action returns and the system after it; `none` where the action is not the next
step of the task its CPU runs. -/
def act (system : System) : Action → Option (Outcome × System)
  | .interrupt cpu sp timer ipiAvailable =>
      (system.interrupt cpu sp timer ipiAvailable).map fun next => (.silent, next)
  | .yield cpu sp ipiAvailable => do
      let task ← system.currentTask cpu
      let resumed ← (system.pc task.id).afterYield
      let outcome ← system.scheduler.onTick cpu sp false ipiAvailable
      return (.silent, system.goto outcome.scheduler task.id resumed)
  | .createTask task =>
      if task.id = system.nextId ∧ system.nextId + 1 < 2 ^ 32 then
        some (.silent, { system with
          nextId := system.nextId + 1, prepared := task :: system.prepared })
      else none
  | .addTask task =>
      if task ∈ system.prepared then
        some (.silent, { system with
          scheduler := system.scheduler.addTask task, prepared := system.prepared.erase task })
      else none
  | .collectExited =>
      some (.silent, { system with scheduler := system.scheduler.collectExited.2 })
  | .send cpu receiver msg => do
      let task ← system.caller cpu
      if system.pc task.id = .outside then
        match ← system.scheduler.postRequest cpu receiver msg with
        | (.ok _, scheduler) =>
            return (.silent, system.goto scheduler task.id (.sendYield receiver))
        | (.error status, scheduler) =>
            return (.sendReturned status (msg.setStatus status),
              system.goto scheduler task.id .outside)
      else none
  | .recheck cpu => do
      let task ← system.caller cpu
      match system.pc task.id with
      | .sendCheck receiver =>
          match ← system.scheduler.recheckReply cpu with
          | (some reply, scheduler) =>
              return (.sendReturned (RqbStatus.ofCode reply.status) reply,
                system.goto scheduler task.id .outside)
          | (none, scheduler) =>
              return (.silent, system.goto scheduler task.id (.sendYield receiver))
      | _ => none
  | .receive cpu => do
      let task ← system.caller cpu
      if system.pc task.id = .outside ∨ system.pc task.id = .receiveTake then
        match ← system.scheduler.takeRequest cpu true with
        | (some msg, scheduler) =>
            return (.received msg, system.goto scheduler task.id .outside)
        | (none, scheduler) =>
            return (.silent, system.goto scheduler task.id .receiveYield)
      else none
  | .tryReceive cpu => do
      let task ← system.caller cpu
      if system.pc task.id = .outside then
        let (msg, scheduler) ← system.scheduler.takeRequest cpu false
        return (.tried msg, system.goto scheduler task.id .outside)
      else none
  | .reply cpu sender msg => do
      let task ← system.caller cpu
      if system.pc task.id = .outside then
        match ← system.scheduler.postReply cpu sender msg with
        | (.ok _, scheduler) =>
            return (.replied .success, system.goto scheduler task.id .outside)
        | (.error status, scheduler) =>
            return (.replied status, system.goto scheduler task.id .outside)
      else none
  | .sleep cpu ms => do
      let task ← system.caller cpu
      if system.pc task.id = .outside then
        return (.silent, system.goto system.scheduler task.id
          (.sleepTest (sleepDeadline system.scheduler.jiffies ms)))
      else none
  | .sleepTest cpu => do
      let task ← system.caller cpu
      match system.pc task.id with
      | .sleepTest deadline =>
          return (.silent, system.goto system.scheduler task.id
            (if system.scheduler.jiffies < deadline then .sleepCall deadline else .outside))
      | _ => none
  | .sleepCall cpu => do
      let task ← system.caller cpu
      match system.pc task.id with
      | .sleepCall deadline =>
          let scheduler ← system.scheduler.sleepUntil cpu deadline
          return (.silent, system.goto scheduler task.id (.sleepYield deadline))
      | _ => none
  | .exit cpu => do
      let task ← system.caller cpu
      if system.pc task.id = .outside then
        let (_, scheduler) ← system.scheduler.markExited cpu
        return (.silent, system.goto scheduler task.id .exiting)
      else none

end System

/-- The systems after distinct CPUs have registered. -/
inductive BootSystem : System → Prop where
  | new : BootSystem ⟨Scheduler.new, 1, [], fun _ => .outside⟩
  | register {system : System} (boot : BootSystem system) (cpu : CpuIndex) (hwId : UInt32)
      (fresh : (system.scheduler.cpus cpu).registered = false)
      (room : system.nextId + 1 < 2 ^ 32) :
      BootSystem { system with
        scheduler := system.scheduler.registerCpu cpu hwId system.nextId
        nextId := system.nextId + 1 }

/-- The running kernel: any interleaving of the tasks' steps, interrupts and task creation. -/
def kernel : LabelledSystem System Action where
  init := BootSystem
  step system action next :=
    (∀ task, action = .createTask task → Prepared task) ∧
      ∃ outcome, system.act action = some (outcome, next)

/-! ### What an action does -/

/-- The current task of a CPU that is not its idle task, at a point of its code. -/
structure Calls (system : System) (cpu : CpuIndex) (me : Nat) (task : TaskControlBlock)
    (pc : Pc) : Prop where
  current : system.scheduler.Current cpu me task
  busy : (system.scheduler.cpus cpu).current ≠ some (system.scheduler.cpus cpu).idleIdx
  at_pc : system.pc task.id = pc

/-- The ways an action can succeed, each with the guards it passed and the system after it. -/
inductive Turn (system : System) : Action → Outcome → System → Prop where
  | interrupt {cpu sp timer ipiAvailable outcome}
      (ticked : system.scheduler.onTick cpu sp timer ipiAvailable = some outcome) :
      Turn system (.interrupt cpu sp timer ipiAvailable) .silent
        { system with scheduler := outcome.scheduler }
  | yield {cpu sp ipiAvailable me task resumed outcome}
      (current : system.scheduler.Current cpu me task)
      (resumes : (system.pc task.id).afterYield = some resumed)
      (ticked : system.scheduler.onTick cpu sp false ipiAvailable = some outcome) :
      Turn system (.yield cpu sp ipiAvailable) .silent
        (system.goto outcome.scheduler task.id resumed)
  | createTask {task} (fresh : task.id = system.nextId) (room : system.nextId + 1 < 2 ^ 32) :
      Turn system (.createTask task) .silent
        { system with nextId := system.nextId + 1, prepared := task :: system.prepared }
  | addTask {task} (built : task ∈ system.prepared) :
      Turn system (.addTask task) .silent
        { system with
          scheduler := system.scheduler.addTask task, prepared := system.prepared.erase task }
  | collectExited :
      Turn system .collectExited .silent
        { system with scheduler := system.scheduler.collectExited.2 }
  | accepted {cpu receiver msg me sender index target}
      (calls : Calls system cpu me sender .outside) (different : receiver ≠ sender.id)
      (found : system.scheduler.tasks[index]? = some target) (targetId : target.id = receiver)
      (alive : target.state ≠ .exited) :
      Turn system (.send cpu receiver msg) .silent
        (system.goto ((system.scheduler.modifyTask index
          (deliver (msg.address sender.id receiver))).modifyTask me (block receiver))
          sender.id (.sendYield receiver))
  | refused {cpu receiver msg me sender status}
      (calls : Calls system cpu me sender .outside)
      (refused : system.scheduler.postRequest cpu receiver msg =
        some (.error status, system.scheduler)) :
      Turn system (.send cpu receiver msg) (.sendReturned status (msg.setStatus status)) system
  | returned {cpu me task receiver reply} (calls : Calls system cpu me task (.sendCheck receiver))
      (replied : task.reply = some reply) :
      Turn system (.recheck cpu) (.sendReturned (RqbStatus.ofCode reply.status) reply)
        (system.goto (system.scheduler.modifyTask me ({ · with reply := none })) task.id .outside)
  | spurious {cpu me task receiver} (calls : Calls system cpu me task (.sendCheck receiver))
      (empty : task.reply = none) :
      Turn system (.recheck cpu) .silent
        (system.goto (system.scheduler.modifyTask me ({ · with state := .waitingReply })) task.id
          (.sendYield receiver))
  | received {cpu me task pc msg rest} (calls : Calls system cpu me task pc)
      (start : pc = .outside ∨ pc = .receiveTake) (queued : task.inbox = msg :: rest) :
      Turn system (.receive cpu) (.received msg)
        (system.goto (system.scheduler.modifyTask me ({ · with inbox := rest })) task.id .outside)
  | blocked {cpu me task pc} (calls : Calls system cpu me task pc)
      (start : pc = .outside ∨ pc = .receiveTake) (empty : task.inbox = []) :
      Turn system (.receive cpu) .silent
        (system.goto (system.scheduler.modifyTask me ({ · with state := .waitingRqb })) task.id
          .receiveYield)
  | tried {cpu me task msg rest} (calls : Calls system cpu me task .outside)
      (queued : task.inbox = msg :: rest) :
      Turn system (.tryReceive cpu) (.tried (some msg))
        (system.goto (system.scheduler.modifyTask me ({ · with inbox := rest })) task.id .outside)
  | triedEmpty {cpu me task} (calls : Calls system cpu me task .outside) :
      Turn system (.tryReceive cpu) (.tried none) system
  | replied {cpu sender msg me replier index task} (calls : Calls system cpu me replier .outside)
      (found : system.scheduler.tasks[index]? = some task) (taskId : task.id = sender)
      (waiting : task.state = .waitingReply) (waitFor : task.waitFor = replier.id)
      (empty : task.reply = none)
      (posted : ∃ kick next, system.scheduler.postReply cpu sender msg = some (.ok kick, next)) :
      Turn system (.reply cpu sender msg) (.replied .success)
        { system with
          scheduler := system.scheduler.modifyTask index (answer (msg.address replier.id sender)) }
  | unreplied {cpu sender msg me replier status} (calls : Calls system cpu me replier .outside)
      (refused : system.scheduler.postReply cpu sender msg =
        some (.error status, system.scheduler)) :
      Turn system (.reply cpu sender msg) (.replied status) system
  | sleep {cpu ms me task} (calls : Calls system cpu me task .outside) :
      Turn system (.sleep cpu ms) .silent (system.goto system.scheduler task.id
        (.sleepTest (sleepDeadline system.scheduler.jiffies ms)))
  | sleepTest {cpu me task deadline pc} (calls : Calls system cpu me task (.sleepTest deadline))
      (next : pc = .sleepCall deadline ∨ pc = .outside) :
      Turn system (.sleepTest cpu) .silent (system.goto system.scheduler task.id pc)
  | sleepCall {cpu me task deadline} (calls : Calls system cpu me task (.sleepCall deadline)) :
      Turn system (.sleepCall cpu) .silent
        (system.goto (system.scheduler.modifyTask me
          ({ · with wakeTick := deadline, state := .sleeping })) task.id (.sleepYield deadline))
  | exit {cpu me task} (calls : Calls system cpu me task .outside) :
      Turn system (.exit cpu) .silent
        (system.goto { system.scheduler with
          tasks := (system.scheduler.tasks.modify me exit).map (abort task.id) } task.id .exiting)

namespace System

theorem goto_self (system : System) {id : Nat} {pc : Pc} (here : system.pc id = pc) :
    system.goto system.scheduler id pc = system := by
  subst here
  simp [goto]

theorem goto_outside (system : System) (scheduler : Scheduler) {id : Nat}
    (here : system.pc id = .outside) :
    system.goto scheduler id .outside = { system with scheduler := scheduler } := by
  simp only [goto, ← here, Function.update_eq_self]

variable {system : System} {task : TaskControlBlock}

theorem currentTask_some {cpu : CpuIndex} (current : system.currentTask cpu = some task) :
    ∃ me, system.scheduler.Current cpu me task :=
  Option.bind_eq_some_iff.mp current

theorem caller_some {cpu : CpuIndex} (calls : system.caller cpu = some task) :
    ∃ me, Calls system cpu me task (system.pc task.id) := by
  unfold caller at calls
  split at calls
  · cases calls
  · rename_i busy
    obtain ⟨me, current⟩ := currentTask_some calls
    exact ⟨me, current, busy, rfl⟩

variable {outcome : Outcome} {next : System} {cpu : CpuIndex}

section

variable {call : TaskControlBlock → Option (Outcome × System)}

/-- A call is made by the current task. -/
theorem caller_bind (acted : (system.caller cpu >>= call) = some (outcome, next)) :
    ∃ task me, Calls system cpu me task (system.pc task.id) ∧ call task = some (outcome, next) := by
  obtain ⟨task, found, acted⟩ := Option.bind_eq_some_iff.mp acted
  obtain ⟨me, calls⟩ := caller_some found
  exact ⟨task, me, calls, acted⟩

theorem caller_outside (acted : (system.caller cpu >>= fun task =>
      if system.pc task.id = .outside then call task else none) = some (outcome, next)) :
    ∃ task me, Calls system cpu me task .outside ∧ call task = some (outcome, next) := by
  obtain ⟨task, me, calls, acted⟩ := caller_bind acted
  split at acted
  · rename_i outside
    rw [outside] at calls
    exact ⟨task, me, calls, acted⟩
  · cases acted

end

/-- Every successful action is one of the turns. -/
theorem turn_of_act {action : Action}
    (acted : system.act action = some (outcome, next)) : Turn system action outcome next := by
  cases action with
  | interrupt cpu sp timer ipiAvailable =>
    simp only [act, interrupt, Option.map_map, Option.map_eq_some_iff] at acted
    obtain ⟨ticked, found, same⟩ := acted
    cases same
    exact .interrupt found
  | yield cpu sp ipiAvailable =>
    simp only [act, Option.bind_eq_bind, Option.bind_eq_some_iff] at acted
    obtain ⟨task, found, _, resumes, _, tick, same⟩ := acted
    obtain ⟨me, current⟩ := currentTask_some found
    cases same
    exact .yield current resumes tick
  | createTask task =>
    simp only [act] at acted
    split at acted
    · rename_i fresh
      cases acted
      exact .createTask fresh.1 fresh.2
    · cases acted
  | addTask task =>
    simp only [act] at acted
    split at acted
    · rename_i built
      cases acted
      exact .addTask built
    · cases acted
  | collectExited =>
    cases acted
    exact .collectExited
  | send cpu receiver msg =>
    obtain ⟨task, me, calls, acted⟩ := caller_outside acted
    obtain ⟨⟨result, scheduler⟩, posted, acted⟩ := Option.bind_eq_some_iff.mp acted
    rcases postRequest_cases posted with ⟨status, rfl, rfl⟩ |
      ⟨other, sender, index, _, current, different, target_found, targetId, alive, _,
        ⟨kick, rfl⟩, rfl⟩
    · cases acted
      rw [goto_self system calls.at_pc]
      exact .refused calls posted
    · obtain ⟨rfl, rfl⟩ := calls.current.unique current
      cases acted
      exact .accepted calls different target_found targetId alive
  | recheck cpu =>
    obtain ⟨task, me, calls, acted⟩ := caller_bind acted
    split at acted
    · rename_i receiver checking
      rw [checking] at calls
      obtain ⟨⟨result, scheduler⟩, checked, acted⟩ := Option.bind_eq_some_iff.mp acted
      obtain ⟨other, _, current, rfl, ⟨reply, replied, rfl⟩ | ⟨empty, rfl⟩⟩ :=
        recheckReply_cases checked
      · obtain ⟨rfl, rfl⟩ := calls.current.unique current
        rw [replied] at acted
        cases acted
        exact .returned calls replied
      · obtain ⟨rfl, rfl⟩ := calls.current.unique current
        rw [empty] at acted
        cases acted
        exact .spurious calls empty
    · cases acted
  | receive cpu =>
    obtain ⟨task, me, calls, acted⟩ := caller_bind acted
    split at acted
    · rename_i start
      obtain ⟨⟨result, scheduler⟩, taken, acted⟩ := Option.bind_eq_some_iff.mp acted
      obtain ⟨other, taker, current, effect⟩ := takeRequest_cases taken
      obtain ⟨rfl, rfl⟩ := calls.current.unique current
      rcases effect with ⟨msg, rest, queued, rfl, rfl⟩ | ⟨empty, rfl, _, rfl⟩ | ⟨_, _, never, _⟩
      · cases acted
        exact .received calls start queued
      · cases acted
        exact .blocked calls start empty
      · cases never
    · cases acted
  | tryReceive cpu =>
    obtain ⟨task, me, calls, acted⟩ := caller_outside acted
    obtain ⟨⟨result, scheduler⟩, taken, acted⟩ := Option.bind_eq_some_iff.mp acted
    obtain ⟨other, _, current, effect⟩ := takeRequest_cases taken
    obtain ⟨rfl, rfl⟩ := calls.current.unique current
    rcases effect with ⟨msg, _, queued, rfl, rfl⟩ | ⟨_, _, never, _⟩ | ⟨_, rfl, _, rfl⟩
    · cases acted
      exact .tried calls queued
    · cases never
    · cases acted
      rw [goto_self system calls.at_pc]
      exact .triedEmpty calls
  | reply cpu sender msg =>
    obtain ⟨task, me, calls, acted⟩ := caller_outside acted
    obtain ⟨⟨_, scheduler⟩, posted, acted⟩ := Option.bind_eq_some_iff.mp acted
    rcases postReply_cases posted with ⟨_, rfl, rfl⟩ |
      ⟨other, _, _, _, current, waiterFound, waiterId, waiting, waitFor, empty, ⟨kick, rfl⟩, rfl⟩
    · cases acted
      rw [goto_self system calls.at_pc]
      exact .unreplied calls posted
    · obtain ⟨rfl, rfl⟩ := calls.current.unique current
      cases acted
      rw [goto_outside system _ calls.at_pc]
      exact .replied calls waiterFound waiterId waiting waitFor empty ⟨_, _, posted⟩
  | sleep cpu ms =>
    obtain ⟨task, me, calls, acted⟩ := caller_outside acted
    cases acted
    exact .sleep calls
  | sleepTest cpu =>
    obtain ⟨task, me, calls, acted⟩ := caller_bind acted
    split at acted
    · rename_i deadline testing
      rw [testing] at calls
      cases acted
      refine .sleepTest calls ?_
      split
      · exact Or.inl rfl
      · exact Or.inr rfl
    · cases acted
  | sleepCall cpu =>
    obtain ⟨task, me, calls, acted⟩ := caller_bind acted
    split at acted
    · rename_i deadline calling
      rw [calling] at calls
      obtain ⟨scheduler, slept, acted⟩ := Option.bind_eq_some_iff.mp acted
      obtain ⟨other, _, current, rfl⟩ := sleepUntil_cases slept
      obtain ⟨rfl, rfl⟩ := calls.current.unique current
      cases acted
      exact .sleepCall calls
    · cases acted
  | exit cpu =>
    obtain ⟨_, _, calls, acted⟩ := caller_outside acted
    obtain ⟨⟨_, _⟩, marked, acted⟩ := Option.bind_eq_some_iff.mp acted
    obtain ⟨_, _, current, rfl⟩ := markExited_cases marked
    obtain ⟨rfl, rfl⟩ := calls.current.unique current
    cases acted
    exact .exit calls

end System

end Mmurtl.Scheduler

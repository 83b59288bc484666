/-
This file models the scheduler's data: the request block of `scheduler/rqb.rs` and
the task control block of `scheduler/task.rs`.

Task identifiers, queue lengths and table indices are natural numbers; the counter
that hands out identifiers stops before `2 ^ 32`, as `next_task_id` does. A CPU
index is a `Fin maxCpus`, so the `u8` a task stores its CPU in loses nothing. The
saved register context stays an opaque stack address.
-/

import Mathlib

namespace Mmurtl

/-! ### Request blocks -/

/-- The payload size of a request block. -/
def rqbDataSize : Nat := 64

/-- The status codes of the kernel and of service tasks. -/
inductive RqbStatus where
  | success
  | generalFailure
  | invalidService
  | invalidParam
  | timeout
  | noMemory
  | accessDenied
  | notFound
  | busy
  | aborted
  deriving DecidableEq, Repr

/-- The wire value of a status. -/
def RqbStatus.toCode : RqbStatus → UInt16
  | .success => 0
  | .generalFailure => 1
  | .invalidService => 2
  | .invalidParam => 3
  | .timeout => 4
  | .noMemory => 5
  | .accessDenied => 6
  | .notFound => 7
  | .busy => 8
  | .aborted => 9

/-- The status a wire value stands for; an unknown value is a general failure. -/
def RqbStatus.ofCode (code : UInt16) : RqbStatus :=
  if code = 0 then .success
  else if code = 1 then .generalFailure
  else if code = 2 then .invalidService
  else if code = 3 then .invalidParam
  else if code = 4 then .timeout
  else if code = 5 then .noMemory
  else if code = 6 then .accessDenied
  else if code = 7 then .notFound
  else if code = 8 then .busy
  else if code = 9 then .aborted
  else .generalFailure

/-- A fixed-size inter-task message. -/
structure Rqb where
  service : UInt16
  status : UInt16
  senderId : Nat
  receiverId : Nat
  dataSize : UInt16
  reserved : UInt16 × UInt16
  data : Vector UInt8 rqbDataSize
  deriving DecidableEq, Repr

/-- A zeroed request block. -/
def Rqb.new : Rqb where
  service := 0
  status := 0
  senderId := 0
  receiverId := 0
  dataSize := 0
  reserved := (0, 0)
  data := Vector.replicate rqbDataSize 0

def Rqb.setStatus (rqb : Rqb) (status : RqbStatus) : Rqb :=
  { rqb with status := status.toCode }

/-- A copy of a message with the two task identifiers the kernel fills in. -/
def Rqb.address (rqb : Rqb) (sender receiver : Nat) : Rqb :=
  { rqb with senderId := sender, receiverId := receiver }

/-- The notice an exiting task leaves in the reply slot of a sender it still owes. -/
def Rqb.abortNotice (sender receiver : Nat) : Rqb :=
  (Rqb.new.setStatus .aborted).address sender receiver

/-! ### Task control blocks -/

/-- The number of CPUs the scheduler tracks. -/
def maxCpus : Nat := 64

instance : NeZero maxCpus := ⟨by decide⟩

abbrev CpuIndex := Fin maxCpus

/-- The state of a task in the scheduler. -/
inductive TaskState where
  | ready
  | running
  | waitingRqb
  | sleeping
  | exited
  | blocked
  | waitingReply
  deriving DecidableEq, Repr

def priorityDefault : UInt8 := 16

def priorityIdle : UInt8 := 31

/-- A single execution context. -/
structure TaskControlBlock where
  id : Nat
  state : TaskState
  priority : UInt8
  contextPtr : UInt64
  kernelStackTop : UInt64
  kernelStackBottom : UInt64
  totalTicks : UInt64
  pinnedCpu : Option CpuIndex
  onCpu : Option CpuIndex
  inbox : List Rqb
  reply : Option Rqb
  waitFor : Nat
  wakeTick : UInt64
  user : Bool
  highResTime : Bool
  specStoreBypassDisable : Bool
  addressSpace : UInt64
  userSlot : Option UInt64
  kstackPhys : UInt64
  reaped : Bool
  deriving DecidableEq, Repr

/-- A guarded, contiguous virtual stack. -/
structure KernelStack where
  virt : UInt64
  phys : UInt64
  size : UInt64
  deriving DecidableEq, Repr

/-- A kernel task whose initial context sits at the top of its stack. `contextSize` is the size
of the architecture's saved register context. -/
def TaskControlBlock.new (id : Nat) (stack : KernelStack) (priority : UInt8)
    (contextSize : UInt64) : TaskControlBlock where
  id := id
  state := .ready
  priority := priority
  contextPtr := (stack.virt + stack.size - contextSize) &&& ~~~(0xF : UInt64)
  kernelStackTop := stack.virt + stack.size
  kernelStackBottom := stack.virt
  totalTicks := 0
  pinnedCpu := none
  onCpu := none
  inbox := []
  reply := none
  waitFor := 0
  wakeTick := 0
  user := false
  highResTime := false
  specStoreBypassDisable := false
  addressSpace := 0
  userSlot := none
  kstackPhys := stack.phys
  reaped := false

/-- A user-mode task: the kernel task's bookkeeping with the user fields filled in. The last
two settings are the ones `create_user_task_with_speculation` stores before adding the task. -/
def TaskControlBlock.newUser (id : Nat) (stack : KernelStack) (priority : UInt8)
    (contextSize space slot : UInt64) (highResTime disableStoreBypass : Bool) :
    TaskControlBlock :=
  { TaskControlBlock.new id stack priority contextSize with
    user := true
    addressSpace := space
    userSlot := some slot
    highResTime := highResTime
    specStoreBypassDisable := disableStoreBypass }

/-- The executing boot or park loop of a CPU, adopted as its idle task. -/
def TaskControlBlock.adoptCurrent (id : Nat) (priority : UInt8) (cpu : CpuIndex) :
    TaskControlBlock where
  id := id
  state := .running
  priority := priority
  contextPtr := 0
  kernelStackTop := 0
  kernelStackBottom := 0
  totalTicks := 0
  pinnedCpu := some cpu
  onCpu := some cpu
  inbox := []
  reply := none
  waitFor := 0
  wakeTick := 0
  user := false
  highResTime := false
  specStoreBypassDisable := false
  addressSpace := 0
  userSlot := none
  kstackPhys := 0
  reaped := false

/-- What `create_task` and the user-task constructors hand to `add_task`. -/
inductive Prepared : TaskControlBlock → Prop where
  | kernel (id : Nat) (stack : KernelStack) (priority : UInt8) (contextSize : UInt64) :
      Prepared (.new id stack priority contextSize)
  | user (id : Nat) (stack : KernelStack) (priority : UInt8) (contextSize space slot : UInt64)
      (highResTime disableStoreBypass : Bool) :
      Prepared (.newUser id stack priority contextSize space slot highResTime disableStoreBypass)

/-- A prepared task is ready, off every CPU, unpinned, with nothing queued or received. -/
theorem Prepared.fields {task : TaskControlBlock} (prepared : Prepared task) :
    task.state = .ready ∧ task.onCpu = none ∧ task.pinnedCpu = none ∧ task.inbox = [] ∧
      task.reply = none ∧ task.reaped = false := by
  cases prepared <;> exact ⟨rfl, rfl, rfl, rfl, rfl, rfl⟩

end Mmurtl

/-
This file models a virtqueue: the descriptor table and the ring of available chains the
driver writes, over the ownership records, and the ring of used chains the device writes.
What the device writes is an argument of every poll, so a device may answer anything.
-/

import Mmurtl.Virtio.Ownership

namespace Mmurtl.Virtio

variable {id : Nat}

/-! ### The queue -/

def descFNext : Nat := 1
def descFWrite : Nat := 2

/-- A descriptor of the table. -/
structure Desc where
  addr : Nat
  len : Nat
  flags : Nat
  next : Nat
  deriving DecidableEq

/-- A buffer of a chain: its address, its length and whether the device writes it. -/
structure QueueBuf where
  addr : Nat
  len : Nat
  deviceWrites : Bool

structure Virtqueue where
  size : Nat
  desc : List Desc
  availIdx : Nat
  availRing : List Nat
  ownership : Ownership
  lastUsed : Nat

variable {after middle : Virtqueue}

/-- A call of a queue: no error, but possibly a panic. -/
abbrev QueueCall (α : Type) := Program Virtqueue Empty α

/-- What the driver finds in the used ring when it polls: the device's index, and the entry
the driver is to look at next. -/
structure Poll where
  used : Nat
  id : Nat
  len : Nat

namespace Virtqueue

/-- A queue with every descriptor free, in memory that is zero. -/
def new (size : Nat) : Outcome Empty Virtqueue := do
  let ownership ← Ownership.new size
  pure {
    size
    desc := List.replicate size ⟨0, 0, 0, 0⟩
    availIdx := 0
    availRing := List.replicate size 0
    ownership
    lastUsed := 0 }

/-- Call the ownership records. -/
def owning {α : Type} (call : Call α) : QueueCall α :=
  Program.within Virtqueue.ownership (fun queue ownership => { queue with ownership }) call

/-- Write a descriptor of the table. -/
def setDesc (index : Nat) (desc : Desc) : QueueCall Unit := do
  let table ← Program.gets Virtqueue.desc
  Program.require (index < table.length)
  Program.modify fun queue => { queue with desc := queue.desc.set index desc }

def flagsOf (buf : QueueBuf) : Nat := if buf.deviceWrites then descFWrite else 0

/-- Write the descriptors of a chain. -/
def fill : Nat → List QueueBuf → QueueCall Unit
  | _, [] => pure ()
  | index, [buf] => setDesc index ⟨buf.addr, buf.len, flagsOf buf, 0⟩
  | index, buf :: rest => do
      let next ← owning (Ownership.nextOf index)
      setDesc index ⟨buf.addr, buf.len, flagsOf buf ||| descFNext, next⟩
      fill next rest

/-- Publish a chain in the ring of available chains. -/
def publish (head : Nat) : QueueCall Unit := do
  let queue ← Program.gets fun queue => queue
  Program.require (queue.size ≠ 0 ∧ queue.availIdx % queue.size < queue.availRing.length)
  Program.modify fun queue => { queue with
    availRing := queue.availRing.set (queue.availIdx % queue.size) head
    availIdx := (queue.availIdx + 1) % wordLimit }

/-- Add a chain and publish it; its head, unless there are too few descriptors. -/
def submit (bufs : List QueueBuf) : QueueCall (Option Nat) := do
  match ← owning (Ownership.reserve bufs.length) with
  | none => pure none
  | some head => do
      fill head bufs
      publish head
      pure (some head)

/-- Take a completion from the used ring: the head of the chain and the length written. -/
def popUsedChecked (chainLen : Nat) (expected : Option Nat) (poll : Poll) :
    QueueCall (Option (Nat × Nat)) := do
  let queue ← Program.gets fun queue => queue
  if queue.ownership.broken then
    pure none
  else if queue.size < (poll.used + wordLimit - queue.lastUsed) % wordLimit then do
    owning Ownership.poison
    pure none
  else if queue.lastUsed = poll.used then
    pure none
  else do
    Program.modify fun queue => { queue with lastUsed := (queue.lastUsed + 1) % wordLimit }
    let head ← owning (Ownership.complete poll.id chainLen expected)
    pure (head.map fun head => (head, poll.len))

def popUsed (chainLen : Nat) (poll : Poll) : QueueCall (Option (Nat × Nat)) :=
  popUsedChecked chainLen none poll

/-- Poll for a completion until there is one, or until the time is up with the last poll. -/
def waitUsed (chainLen : Nat) : List Poll → QueueCall (Option (Nat × Nat))
  | [] => pure none
  | [last] => popUsed chainLen last
  | poll :: later => do
      let broken ← Program.gets fun queue => queue.ownership.broken
      if broken then
        pure none
      else do
        match ← popUsed chainLen poll with
        | some completion => pure (some completion)
        | none => waitUsed chainLen later

end Virtqueue

/-! ### Chains of one buffer -/

open Virtio.Ownership

/-- A queue whose chains handed out are known, and the table and ring it is over. -/
structure Posted (size : Nat) (held : List (Nat × Nat)) (queue : Virtqueue) : Prop where
  owned : Owned size held queue.ownership
  sized : queue.size = size
  table : queue.desc.length = size
  ring : queue.availRing.length = size

section Posted

variable {size : Nat} {held : List (Nat × Nat)} {queue : Virtqueue}

variable {α : Type}

theorem owning_of_ok {call : Call α} {value : α} {after : Ownership}
    (run : call queue.ownership = (.ok value, after)) :
    Virtqueue.owning call queue = (.ok value, { queue with ownership := after }) := by
  simp only [Virtqueue.owning, Program.within, run]

theorem owning_bind {β : Type} {call : Call α} {value : α} {after : Ownership}
    (rest : α → QueueCall β) (run : call queue.ownership = (.ok value, after)) :
    (Virtqueue.owning call >>= rest) queue = rest value { queue with ownership := after } :=
  Program.bind_of_ok (owning_of_ok run)

theorem Owned.broken {queue : Ownership} (owned : Owned size held queue) (broken : Bool) :
    Owned size held { queue with broken := broken } :=
  ⟨⟨owned.freeEnds, owned.chainEnds, owned.descriptors⟩, owned.nextLength, owned.pendingLength,
    owned.heads, owned.counts⟩

theorem setDesc_bind {index : Nat} (rest : Unit → QueueCall α) (inside : index < queue.desc.length)
    (desc : Desc) : (Virtqueue.setDesc index desc >>= rest) queue =
      rest () { queue with desc := queue.desc.set index desc } := by
  refine Program.bind_of_ok ?_
  rw [Virtqueue.setDesc, Program.gets_bind_run,
    Program.bind_of_ok (Program.run_require inside queue), Program.run_modify]

theorem publish_bind (rest : Unit → QueueCall α)
    (place : queue.size ≠ 0 ∧ queue.availIdx % queue.size < queue.availRing.length) (head : Nat) :
    (Virtqueue.publish head >>= rest) queue = rest () { queue with
      availRing := queue.availRing.set (queue.availIdx % queue.size) head
      availIdx := (queue.availIdx + 1) % wordLimit } := by
  refine Program.bind_of_ok ?_
  rw [Virtqueue.publish, Program.gets_bind_run,
    Program.bind_of_ok (Program.run_require place queue), Program.run_modify]

/-- The queue after a chain of one buffer was added. -/
def Virtqueue.submitted (queue : Virtqueue) (buf : QueueBuf) : Virtqueue :=
  { queue with
    ownership := queue.ownership.reserved 1
    desc := queue.desc.set queue.ownership.freeHead ⟨buf.addr, buf.len, flagsOf buf, 0⟩
    availRing := queue.availRing.set (queue.availIdx % queue.size) queue.ownership.freeHead
    availIdx := (queue.availIdx + 1) % wordLimit }

/-- A chain of one buffer takes the first descriptor of the free list; no other descriptor is
written. -/
theorem submit_one (posted : Posted size held queue) (bounded : size < wordLimit)
    (sound : queue.ownership.broken = false) (enough : 1 ≤ queue.ownership.free) (buf : QueueBuf) :
    Virtqueue.submit [buf] queue = (.ok (some queue.ownership.freeHead), queue.submitted buf) ∧
      Posted size ((queue.ownership.freeHead, 1) :: held) (queue.submitted buf) := by
  have head : queue.ownership.freeHead < queue.desc.length := by
    rw [posted.table]
    exact posted.owned.free_lt (mem_iterate_of_lt enough)
  have taken := owning_of_ok (reserve_eq posted.owned bounded sound Nat.one_ne_zero enough)
  have positive : queue.size ≠ 0 := by
    rw [posted.sized, ← posted.table]
    exact Nat.ne_of_gt (Nat.zero_lt_of_lt head)
  have place : queue.availIdx % queue.size < queue.availRing.length := by
    rw [posted.ring, ← posted.sized]
    exact Nat.mod_lt _ (Nat.pos_of_ne_zero positive)
  refine ⟨?_, posted.owned.reserve Nat.one_ne_zero enough, posted.sized, ?_, ?_⟩
  · rw [Virtqueue.submit, List.length_singleton, Program.bind_of_ok taken]
    dsimp only [Virtqueue.fill]
    rw [setDesc_bind, publish_bind, Program.run_pure]
    · rfl
    · exact ⟨positive, place⟩
    · exact head
  · exact (List.length_set ..).trans posted.table
  · exact (List.length_set ..).trans posted.ring

/-- Without a free descriptor nothing is added. -/
theorem submit_none (closed : queue.ownership.broken = true ∨ queue.ownership.free = 0)
    (buf : QueueBuf) : Virtqueue.submit [buf] queue = (.ok none, queue) := by
  have refused : queue.ownership.broken = true ∨ 1 = 0 ∨ queue.ownership.free < 1 := by
    rcases closed with stopped | _
    · exact .inl stopped
    · exact .inr (.inr (by omega))
  rw [Virtqueue.submit, List.length_singleton,
    Program.bind_of_ok (owning_of_ok (reserve_eq_none refused))]
  rfl

/-- The queue after polls that completed nothing: it may have stopped, and the driver has seen
more of the used ring. -/
inductive Idle (queue : Virtqueue) : Virtqueue → Prop where
  | seen (lastUsed : Nat) : Idle queue { queue with lastUsed }
  | stopped (lastUsed : Nat) : Idle queue { queue with
      lastUsed, ownership := { queue.ownership with broken := true } }

/-- The queue after a poll completed a chain of one buffer. -/
inductive Completes (held : List (Nat × Nat)) (queue : Virtqueue) (id : Nat) :
    Virtqueue → Prop where
  | given (lastUsed : Nat) (out : (id, 1) ∈ held) (sound : queue.ownership.broken = false) :
      Completes held queue id { queue with
        lastUsed, ownership := queue.ownership.completed id 1 }

/-- A poll completes nothing, or a chain that was handed out. -/
theorem popUsed_cases (posted : Posted size held queue) (bounded : size < wordLimit) (poll : Poll) :
    (∃ after, Virtqueue.popUsed 1 poll queue = (.ok none, after) ∧ Idle queue after) ∨
      ∃ after, Virtqueue.popUsed 1 poll queue = (.ok (some (poll.id, poll.len)), after) ∧
        Completes held queue poll.id after := by
  unfold Virtqueue.popUsed Virtqueue.popUsedChecked
  rw [Program.gets_bind_run]
  by_cases stopped : queue.ownership.broken = true
  · rw [if_pos stopped]
    exact .inl ⟨queue, rfl, .seen queue.lastUsed⟩
  have sound := Bool.eq_false_of_not_eq_true stopped
  rw [if_neg stopped]
  by_cases ahead : queue.size < (poll.used + wordLimit - queue.lastUsed) % wordLimit
  · rw [if_pos ahead]
    exact .inl ⟨_, owning_bind _ (Program.run_modify _ _), .stopped queue.lastUsed⟩
  rw [if_neg ahead]
  by_cases nothing : queue.lastUsed = poll.used
  · rw [if_pos nothing]
    exact .inl ⟨queue, rfl, .seen queue.lastUsed⟩
  rw [if_neg nothing, Program.modify_bind_run]
  by_cases out : (poll.id, 1) ∈ held
  · have given : complete poll.id 1 none queue.ownership =
        (.ok (some poll.id), queue.ownership.completed poll.id 1) :=
      complete_eq posted.owned bounded sound out fun _ wrong => by cases wrong
    exact .inr ⟨_, Eq.trans (owning_bind _ given) rfl, .given _ out sound⟩
  · have refused : complete poll.id 1 none queue.ownership =
        (.ok none, { queue.ownership with broken := true }) :=
      complete_malformed posted.owned sound (.inl out)
    exact .inl ⟨_, Eq.trans (owning_bind _ refused) rfl, .stopped _⟩

theorem Idle.posted (idle : Idle queue after) (posted : Posted size held queue) :
    Posted size held after := by
  cases idle with
  | seen => exact ⟨posted.owned, posted.sized, posted.table, posted.ring⟩
  | stopped => exact ⟨Owned.broken posted.owned true, posted.sized, posted.table, posted.ring⟩

theorem Idle.desc (idle : Idle queue after) : after.desc = queue.desc := by
  cases idle <;> rfl

theorem Idle.trans (first : Idle queue middle) (second : Idle middle after) : Idle queue after := by
  cases first with
  | seen =>
    cases second with
    | seen lastUsed => exact .seen lastUsed
    | stopped lastUsed => exact .stopped lastUsed
  | stopped =>
    cases second with
    | seen lastUsed => exact .stopped lastUsed
    | stopped lastUsed => exact .stopped lastUsed

theorem Idle.completes (first : Idle queue middle) (second : Completes held middle id after) :
    Completes held queue id after := by
  cases second with
  | given lastUsed out sound =>
    cases first with
    | seen => exact .given lastUsed out sound
    | stopped => cases sound

/-- Waiting completes nothing, or a chain that was handed out. -/
theorem waitUsed_cases (posted : Posted size held queue) (bounded : size < wordLimit)
    (polls : List Poll) :
    (∃ after, Virtqueue.waitUsed 1 polls queue = (.ok none, after) ∧ Idle queue after) ∨
      ∃ poll ∈ polls, ∃ after,
        Virtqueue.waitUsed 1 polls queue = (.ok (some (poll.id, poll.len)), after) ∧
        Completes held queue poll.id after := by
  induction polls generalizing queue with
  | nil => exact .inl ⟨queue, rfl, .seen queue.lastUsed⟩
  | cons poll later ih =>
    cases later with
    | nil =>
      rcases popUsed_cases posted bounded poll with none | ⟨after, some, completes⟩
      · exact .inl none
      · exact .inr ⟨poll, List.mem_cons_self, after, some, completes⟩
    | cons next later =>
      unfold Virtqueue.waitUsed
      rw [Program.gets_bind_run]
      by_cases stopped : queue.ownership.broken = true
      · rw [if_pos stopped]
        exact .inl ⟨queue, rfl, .seen queue.lastUsed⟩
      rw [if_neg stopped]
      rcases popUsed_cases posted bounded poll with ⟨after, none, idle⟩ | ⟨after, some, completes⟩
      · rw [Program.bind_of_ok none]
        rcases ih (idle.posted posted) with
          ⟨last, none, rest⟩ | ⟨found, member, last, some, completes⟩
        · exact .inl ⟨last, none, idle.trans rest⟩
        · exact .inr ⟨found, List.mem_cons_of_mem _ member, last, some, idle.completes completes⟩
      · rw [Program.bind_of_ok some]
        exact .inr ⟨poll, List.mem_cons_self, after, rfl, completes⟩

/-- A completed chain is handed out no more, and its descriptor is the first free one. -/
theorem Completes.posted (completes : Completes held queue id after)
    (posted : Posted size held queue) :
    Posted size (held.filter fun chain => chain.1 ≠ id) after ∧ after.desc = queue.desc ∧
      (id, 1) ∈ held ∧ after.ownership.freeHead = id ∧ after.ownership.broken = false ∧
      1 ≤ after.ownership.free := by
  cases completes with
  | given lastUsed out sound =>
    exact ⟨⟨posted.owned.complete out, posted.sized, posted.table, posted.ring⟩, rfl, out, rfl,
      sound, Nat.le_add_left ..⟩

end Posted

end Mmurtl.Virtio

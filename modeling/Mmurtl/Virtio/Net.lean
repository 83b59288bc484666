/-
This file models the receive side of the network driver and proves that it never mixes up
its receive buffers. The driver keeps no record of which buffer a descriptor carries: it
reads the buffer off the number of the descriptor. That is right because a completed
descriptor is put at the front of the free list, so the buffer is posted again with the
descriptor that it was completed with.
-/

import Mmurtl.Library.Transition
import Mmurtl.Virtio.Queue

namespace Mmurtl.Net

open Virtio Transition List

variable {after : Virtqueue} {head rxSize txSize : Nat}

/-! ### The driver -/

def rxBuffers : Nat := 8
def rxBufLen : Nat := 2048
def netHdrLenLegacy : Nat := 10
def netHdrLenModern : Nat := 12

/-- The receive side of the device. The receive area is known by its physical address. -/
structure NetDevice where
  rx : Virtqueue
  rxBuf : Nat
  hdrLen : Nat
  failed : Bool

/-- A call of the driver: no error, but possibly a panic. -/
abbrev NetCall (α : Type) := Program NetDevice Empty α

/-- Post a receive buffer, if there is a descriptor for it. -/
def post (phys : Nat) : QueueCall Unit := do
  let _ ← Virtqueue.submit [⟨phys, rxBufLen, true⟩]
  pure ()

/-- Prefill the receive queue. -/
def prefill (rxBuf : Nat) : QueueCall Unit :=
  Program.forEach (List.range rxBuffers) fun i => post (rxBuf + i * rxBufLen)

/-- Set the device up, unless one of its queues is missing. -/
def init (rxSize txSize rxBuf : Nat) (modern : Bool) : Outcome Empty (Option NetDevice) :=
  if rxSize = 0 ∨ txSize = 0 then
    pure none
  else do
    let empty ← Virtqueue.new rxSize
    let (filled, rx) := prefill rxBuf empty
    filled
    pure (some {
      rx
      rxBuf
      hdrLen := if modern then netHdrLenModern else netHdrLenLegacy
      failed := false })

/-- Call the receive queue. -/
def receiving {α : Type} (call : QueueCall α) : NetCall α :=
  Program.within NetDevice.rx (fun device rx => { device with rx }) call

/-- Bytes of the memory the device writes. -/
def dmaRead (memory : Nat → UInt8) (address count : Nat) : List UInt8 :=
  (List.range count).map fun i => memory (address + i)

/-- Receive one frame into a buffer of a given capacity. The memory is what it is when the
frame is copied. -/
def recvFrame (capacity : Nat) (memory : Nat → UInt8) (polls : List Poll) :
    NetCall (Option (List UInt8)) := do
  let failed ← Program.gets NetDevice.failed
  if failed then
    pure none
  else do
    match ← receiving (Virtqueue.waitUsed 1 polls) with
    | none => do
        let broken ← Program.gets fun device => device.rx.ownership.broken
        Program.when (broken = true) (Program.modify fun device => { device with failed := true })
        pure none
    | some (head, written) => do
        let device ← Program.gets fun device => device
        let bufOff := head % rxBuffers * rxBufLen
        let frameLen := min (written - device.hdrLen) capacity
        let frame := dmaRead memory (device.rxBuf + (bufOff + device.hdrLen)) frameLen
        receiving (post (device.rxBuf + bufOff))
        pure (some frame)

/-! ### The property -/

/-- A chain starts at the descriptor and is posted to the device. -/
def Pending (queue : Virtqueue) (head : Nat) : Prop :=
  ∃ count, count ≠ 0 ∧ queue.ownership.pending[head]? = some count

/-- The descriptor of a receive buffer. -/
def rxDesc (rxBuf buffer : Nat) : Desc := ⟨rxBuf + buffer * rxBufLen, rxBufLen, descFWrite, 0⟩

/-- Every pending descriptor carries the buffer of its number, and no two carry the same. -/
structure Unmixed (rxBuf : Nat) (queue : Virtqueue) : Prop where
  carries : ∀ head, Pending queue head → head < rxBuffers ∧
    queue.ownership.pending[head]? = some 1 ∧ queue.desc[head]? = some (rxDesc rxBuf head)
  once : ∀ (first second buffer : Nat), Pending queue first → Pending queue second →
    queue.desc[first]? = some (rxDesc rxBuf buffer) →
    queue.desc[second]? = some (rxDesc rxBuf buffer) → first = second

/-- A call of the driver with what the device answers, and the frame it returned. -/
structure Receive where
  capacity : Nat
  memory : Nat → UInt8
  polls : List Poll
  frame : Option (List UInt8)

/-- The device under calls for frames, each with a buffer that a receive buffer can fill. -/
def network : LabelledSystem NetDevice Receive where
  init device := ∃ rxSize txSize rxBuf modern, rxSize < wordLimit ∧
    init rxSize txSize rxBuf modern = .ok (some device)
  step before call after := before.hdrLen + call.capacity ≤ rxBufLen ∧
    recvFrame call.capacity call.memory call.polls before = (.ok call.frame, after)

/-- What a call for a frame does with the buffers. -/
structure Received (move : Move NetDevice Receive) : Prop where
  before : Unmixed move.before.rxBuf move.before.rx
  /-- The buffers are not mixed up either while the frame is copied. -/
  waited : Unmixed move.before.rxBuf
    (Virtqueue.waitUsed 1 move.label.polls move.before.rx).2
  after : Unmixed move.after.rxBuf move.after.rx
  /-- A frame comes from the buffer that was posted with the completed descriptor. -/
  copied : ∀ frame, move.label.frame = some frame → ∃ head written queue desc,
    Virtqueue.waitUsed 1 move.label.polls move.before.rx = (.ok (some (head, written)), queue) ∧
    Pending move.before.rx head ∧ ¬ Pending queue head ∧
    move.before.rx.desc[head]? = some desc ∧
    frame = dmaRead move.label.memory (desc.addr + move.before.hdrLen)
      (min (written - move.before.hdrLen) move.label.capacity) ∧
    move.before.hdrLen + frame.length ≤ desc.len

/-! ### The receive queue -/

/-- The chains handed out are single descriptors that carry the buffer of their number. -/
structure Receiving (size rxBuf : Nat) (held : List (Nat × Nat)) (queue : Virtqueue) : Prop
    extends Posted size held queue where
  carried : ∀ chain ∈ held, chain.2 = 1 ∧ chain.1 < rxBuffers ∧
    queue.desc[chain.1]? = some (rxDesc rxBuf chain.1)

section Receiving

variable {size rxBuf : Nat} {held : List (Nat × Nat)} {queue : Virtqueue}

theorem rxDesc_injective {first second : Nat} (same : rxDesc rxBuf first = rxDesc rxBuf second) :
    first = second := by
  have address := congrArg Desc.addr same
  simp only [rxDesc, rxBufLen] at address
  omega

section

variable (receiving : Receiving size rxBuf held queue)
include receiving

theorem Receiving.pending_iff (head : Nat) : Pending queue head ↔ (head, 1) ∈ held := by
  constructor
  · rintro ⟨count, positive, recorded⟩
    have out := (receiving.owned.counts head count positive).mp recorded
    have single : count = 1 := (receiving.carried _ out).1
    rwa [single] at out
  · intro out
    exact ⟨1, Nat.one_ne_zero, (receiving.owned.counts head 1 Nat.one_ne_zero).mpr out⟩

theorem Receiving.unmixed : Unmixed rxBuf queue := by
  have carries : ∀ head, Pending queue head → head < rxBuffers ∧
      queue.ownership.pending[head]? = some 1 ∧
      queue.desc[head]? = some (rxDesc rxBuf head) := by
    intro head pending
    have out := (receiving.pending_iff head).mp pending
    have ⟨_, below, carried⟩ := receiving.carried _ out
    exact ⟨below, (receiving.owned.counts head 1 Nat.one_ne_zero).mpr out, carried⟩
  have own : ∀ (head buffer : Nat), Pending queue head →
      queue.desc[head]? = some (rxDesc rxBuf buffer) → head = buffer := by
    intro head buffer pending posted
    rw [(carries head pending).2.2] at posted
    exact rxDesc_injective (Option.some.inj posted)
  refine ⟨carries, fun first second buffer firstPending secondPending one other => ?_⟩
  rw [own first buffer firstPending one, own second buffer secondPending other]

/-- Posting a buffer with the descriptor of its number keeps the buffers apart. -/
theorem Receiving.post (bounded : size < wordLimit) (sound : queue.ownership.broken = false)
    (enough : 1 ≤ queue.ownership.free) (below : queue.ownership.freeHead < rxBuffers) :
    Net.post (rxBuf + queue.ownership.freeHead * rxBufLen) queue =
        (.ok (), queue.submitted ⟨rxBuf + queue.ownership.freeHead * rxBufLen, rxBufLen, true⟩) ∧
      Receiving size rxBuf ((queue.ownership.freeHead, 1) :: held)
        (queue.submitted ⟨rxBuf + queue.ownership.freeHead * rxBufLen, rxBufLen, true⟩) := by
  obtain ⟨run, posted⟩ := submit_one receiving.toPosted bounded sound enough
    ⟨rxBuf + queue.ownership.freeHead * rxBufLen, rxBufLen, true⟩
  have inside : queue.ownership.freeHead < queue.desc.length := by
    rw [receiving.table]
    exact posted.owned.chain_lt mem_cons_self (posted.owned.head_mem mem_cons_self)
  refine ⟨Program.bind_of_ok run, posted, fun chain out => ?_⟩
  rcases mem_cons.mp out with rfl | earlier
  · exact ⟨rfl, below, getElem?_set_self inside⟩
  · obtain ⟨single, under, carried⟩ := receiving.carried chain earlier
    refine ⟨single, under, ?_⟩
    refine (getElem?_set_ne ?_).trans carried
    intro same
    refine (nodup_cons.mp posted.owned.heads).1 ?_
    show queue.ownership.freeHead ∈ held.map Prod.fst
    rw [same]
    exact mem_map_of_mem earlier

theorem Receiving.idle (idle : Idle queue after) : Receiving size rxBuf held after := by
  refine ⟨idle.posted receiving.toPosted, ?_⟩
  rw [idle.desc]
  exact receiving.carried

theorem Receiving.completes (completes : Completes held queue head after) :
    Receiving size rxBuf (held.filter fun chain => chain.1 ≠ head) after := by
  obtain ⟨posted, kept, -⟩ := completes.posted receiving.toPosted
  refine ⟨posted, ?_⟩
  rw [kept]
  exact fun chain out => receiving.carried chain (mem_of_mem_filter out)

end

end Receiving

/-! ### The prefill -/

/-- The receive queue when the first buffers were posted: the descriptors beyond them are
free, in their order. -/
structure Filling (size rxBuf done : Nat) (queue : Virtqueue) : Prop where
  receiving : ∃ held, Receiving size rxBuf held queue
  sound : queue.ownership.broken = false
  free : queue.ownership.free = size - done
  first : done < size → queue.ownership.freeHead = done
  ordered : ∀ id, done ≤ id → id + 1 < size → queue.ownership.link id = id + 1

section Filling

variable {size rxBuf done : Nat} {queue : Virtqueue}

/-- One more buffer is posted with the descriptor of its number, or the queue is full. -/
theorem Filling.post (filling : Filling size rxBuf done queue) (bounded : size < wordLimit)
    (below : done < rxBuffers) :
    (Net.post (rxBuf + done * rxBufLen)).Meets queue
      (fun _ after => Filling size rxBuf (done + 1) after) (fun _ _ => False) := by
  obtain ⟨_, receiving⟩ := filling.receiving
  by_cases room : done < size
  · obtain rfl := filling.first room
    obtain ⟨run, posted⟩ := receiving.post bounded filling.sound (by rw [filling.free]; omega) below
    have others : ∀ id, queue.ownership.freeHead + 1 ≤ id → id + 1 < size →
        (queue.ownership.reserved 1).link id = id + 1 := by
      intro id later inside
      have kept : (queue.ownership.reserved 1).link id = queue.ownership.link id := by
        refine (congrFun (Ownership.link_set ?_ endMark) id).trans
          (Function.update_of_ne (by show id ≠ queue.ownership.freeHead; omega) ..)
        rw [receiving.owned.nextLength]
        exact room
      rw [kept]
      exact filling.ordered id (by omega) inside
    refine .of_ok run ⟨⟨_, posted⟩, filling.sound, ?_, ?_, others⟩
    · show queue.ownership.free - 1 = _
      rw [filling.free]
      omega
    · exact fun more => filling.ordered _ le_rfl more
  · have full : queue.ownership.free = 0 := by
      rw [filling.free]
      omega
    refine .of_ok (Program.bind_of_ok (submit_none (.inr full) _))
      ⟨filling.receiving, filling.sound, ?_, fun more => absurd more (by omega),
        fun id later => filling.ordered id (by omega)⟩
    rw [full]
    omega

/-- An empty queue is ready for the prefill. -/
theorem filling_new (positive : 1 ≤ size) (rxBuf : Nat) :
    ∃ queue, Virtqueue.new size = .ok queue ∧ Filling size rxBuf 0 queue := by
  obtain ⟨_, made, sound, owned⟩ := Ownership.owned_new positive
  have whole : (if size = 0 then Outcome.panic else _ : Outcome Empty Ownership) = _ := made
  rw [if_neg (by omega)] at whole
  cases whole
  refine ⟨_, by rw [Virtqueue.new, made]; rfl, ⟨[], ⟨owned, rfl, length_replicate,
    length_replicate⟩, forall_mem_nil _⟩, sound, rfl, fun _ => rfl, fun id _ inside => ?_⟩
  exact (Ownership.getD_successors size id).trans (if_pos inside)

theorem Filling.posts (bounded : size < wordLimit) (count : Nat)
    (filling : Filling size rxBuf done queue) (below : done + count ≤ rxBuffers) :
    (Program.forEach (List.range' done count) fun i => Net.post (rxBuf + i * rxBufLen)).Meets queue
      (fun _ after => Filling size rxBuf (done + count) after) (fun _ _ => False) := by
  induction count generalizing done queue with
  | zero => exact filling
  | succ count ih =>
    rw [range'_succ, Program.forEach_cons]
    refine (filling.post bounded (by omega)).bind fun _ after next => ?_
    have rest := ih next (by omega)
    rw [Nat.add_right_comm] at rest
    exact rest

end Filling

/-! ### Receiving a frame -/

/-- A device whose buffers are not mixed up. -/
def Working (device : NetDevice) : Prop :=
  ∃ size held, size < wordLimit ∧ Receiving size device.rxBuf held device.rx

theorem working_init (positive : 1 ≤ rxSize) (bounded : rxSize < wordLimit) (sends : 1 ≤ txSize)
    (rxBuf : Nat) (modern : Bool) :
    ∃ device, init rxSize txSize rxBuf modern = .ok (some device) ∧ Working device := by
  obtain ⟨_, made, filling⟩ := filling_new positive rxBuf
  have filled := filling.posts bounded rxBuffers (Nat.zero_add _).le
  rw [← range_eq_range'] at filled
  rcases filled.cases with ⟨_, rx, run, full⟩ | ⟨never, _⟩
  · obtain ⟨held, receiving⟩ := full.receiving
    refine ⟨⟨rx, rxBuf, if modern then netHdrLenModern else netHdrLenLegacy, false⟩, ?_, rxSize,
      held, bounded, receiving⟩
    rw [init, if_neg (by omega), made, Outcome.ok_bind, prefill, run]
    rfl
  · cases never

section Frames

variable {device : NetDevice} {waited : Virtqueue}

theorem receiving_of_ok {α : Type} {call : QueueCall α} {value : α}
    (run : call device.rx = (.ok value, after)) :
    receiving call device = (.ok value, { device with rx := after }) := by
  simp only [receiving, Program.within, run]

variable (capacity : Nat) (memory : Nat → UInt8) {polls : List Poll}

/-- No frame in time: the device fails if its queue has stopped. -/
theorem recvFrame_none (works : device.failed = false)
    (run : Virtqueue.waitUsed 1 polls device.rx = (.ok none, waited)) :
    recvFrame capacity memory polls device =
      (.ok none, { device with rx := waited, failed := waited.ownership.broken }) := by
  rw [recvFrame, Program.gets_bind_run, if_neg (works ▸ Bool.false_ne_true),
    Program.bind_of_ok (receiving_of_ok run)]
  dsimp only
  rw [Program.gets_bind_run, Program.when]
  cases stopped : waited.ownership.broken with
  | true => rfl
  | false =>
    rw [works]
    rfl

/-- A completed buffer is copied and posted again, with the descriptor it came with. -/
theorem recvFrame_some {size : Nat} {held : List (Nat × Nat)} (works : device.failed = false)
    (receiving : Receiving size device.rxBuf held device.rx) (bounded : size < wordLimit)
    {written : Nat} (completes : Completes held device.rx head waited)
    (run : Virtqueue.waitUsed 1 polls device.rx = (.ok (some (head, written)), waited)) :
    ∃ rx, Receiving size device.rxBuf ((head, 1) :: held.filter fun chain => chain.1 ≠ head) rx ∧
      recvFrame capacity memory polls device =
        (.ok (some (dmaRead memory (device.rxBuf + head * rxBufLen + device.hdrLen)
          (min (written - device.hdrLen) capacity))), { device with rx }) := by
  obtain ⟨-, -, out, rfl, sound, enough⟩ := completes.posted receiving.toPosted
  have below := (receiving.carried _ out).2.1
  obtain ⟨again, posted⟩ := (receiving.completes completes).post bounded sound enough below
  refine ⟨_, posted, ?_⟩
  rw [recvFrame, Program.gets_bind_run, if_neg (works ▸ Bool.false_ne_true),
    Program.bind_of_ok (receiving_of_ok run)]
  dsimp only
  rw [Program.gets_bind_run, Nat.mod_eq_of_lt below,
    Program.bind_of_ok (receiving_of_ok again), Program.run_pure, Nat.add_assoc]

theorem length_dmaRead (address count : Nat) : (dmaRead memory address count).length = count := by
  rw [dmaRead, length_map, length_range]

/-- A call for a frame returns, and does not mix the buffers up. -/
theorem recvFrame_received (working : Working device)
    (fits : device.hdrLen + capacity ≤ rxBufLen) (polls : List Poll) :
    ∃ frame after, recvFrame capacity memory polls device = (.ok frame, after) ∧
      Working after ∧ Received ⟨device, ⟨capacity, memory, polls, frame⟩, after⟩ := by
  obtain ⟨size, held, bounded, receiving⟩ := working
  rcases waitUsed_cases receiving.toPosted bounded polls with
    ⟨waited, run, idle⟩ | ⟨poll, -, waited, run, completes⟩
  · have kept := receiving.idle idle
    have middle : Unmixed device.rxBuf (Virtqueue.waitUsed 1 polls device.rx).2 := by
      rw [run]
      exact kept.unmixed
    cases works : device.failed with
    | true =>
      refine ⟨none, device, ?_, ⟨size, held, bounded, receiving⟩, receiving.unmixed, middle,
        receiving.unmixed, fun _ wrong => by cases wrong⟩
      rw [recvFrame, Program.gets_bind_run, if_pos works, Program.run_pure]
    | false =>
      exact ⟨none, _, recvFrame_none capacity memory works run, ⟨size, held, bounded, kept⟩,
        receiving.unmixed, middle, kept.unmixed, fun _ wrong => by cases wrong⟩
  · have given := receiving.completes completes
    have middle : Unmixed device.rxBuf (Virtqueue.waitUsed 1 polls device.rx).2 := by
      rw [run]
      exact given.unmixed
    cases works : device.failed with
    | true =>
      refine ⟨none, device, ?_, ⟨size, held, bounded, receiving⟩, receiving.unmixed, middle,
        receiving.unmixed, fun _ wrong => by cases wrong⟩
      rw [recvFrame, Program.gets_bind_run, if_pos works, Program.run_pure]
    | false =>
      obtain ⟨_, posted, received⟩ :=
        recvFrame_some capacity memory works receiving bounded completes run
      refine ⟨_, _, received, ⟨size, _, bounded, posted⟩, receiving.unmixed, middle,
        posted.unmixed, ?_⟩
      rintro _ ⟨⟩
      have out := (completes.posted receiving.toPosted).2.2.1
      refine ⟨poll.id, poll.len, waited, rxDesc device.rxBuf poll.id, run,
        (receiving.pending_iff _).mpr out, ?_, (receiving.carried _ out).2.2, rfl, ?_⟩
      · rw [given.pending_iff, mem_filter]
        exact fun member => of_decide_eq_true member.2 rfl
      · rw [length_dmaRead]
        show device.hdrLen + min (poll.len - device.hdrLen) capacity ≤ rxBufLen
        omega

end Frames

/-! ### Whole runs -/

theorem working_of_run {start last : NetDevice} {moves : List (Move NetDevice Receive)}
    (working : Working start) (run : Run network start moves last) :
    Working last ∧ ∀ move ∈ moves, Received move := by
  induction run with
  | nil => exact ⟨working, forall_mem_nil _⟩
  | @snoc before after moves call run step ih =>
    obtain ⟨works, earlier⟩ := ih
    obtain ⟨fits, called⟩ := step
    obtain ⟨frame, _, returned, kept, received⟩ :=
      recvFrame_received call.capacity call.memory works fits call.polls
    rw [returned] at called
    cases called
    exact ⟨kept, forall_mem_append.mpr ⟨earlier, forall_mem_singleton.mpr received⟩⟩

/-- The driver comes up with a receive queue of any size, every call for a frame returns, and
whatever the device answers, no buffer is ever mixed up with another. -/
theorem unmixed_of_run {rxSize txSize : Nat} (positive : 1 ≤ rxSize) (bounded : rxSize < wordLimit)
    (sends : 1 ≤ txSize) (rxBuf : Nat) (modern : Bool) :
    ∃ start, init rxSize txSize rxBuf modern = .ok (some start) ∧
      Unmixed start.rxBuf start.rx ∧
      ∀ moves last, Run network start moves last →
        (∀ move ∈ moves, Received move) ∧
        ∀ capacity memory polls, last.hdrLen + capacity ≤ rxBufLen →
          ∃ frame after, recvFrame capacity memory polls last = (.ok frame, after) := by
  obtain ⟨start, made, working⟩ := working_init positive bounded sends rxBuf modern
  have unmixed : Unmixed start.rxBuf start.rx := by
    obtain ⟨_, _, -, receiving⟩ := working
    exact receiving.unmixed
  refine ⟨start, made, unmixed, fun moves last run => ?_⟩
  obtain ⟨works, received⟩ := working_of_run working run
  refine ⟨received, fun capacity memory polls fits => ?_⟩
  obtain ⟨frame, after, returned, -⟩ := recvFrame_received capacity memory works fits polls
  exact ⟨frame, after, returned⟩

/-- The device with two receive descriptors, and a call that the device answers with the
second one. -/
def smallDevice : NetDevice where
  rx := ⟨2, [rxDesc 4096 0, rxDesc 4096 1], 2, [0, 1], ⟨[endMark, endMark], [1, 1], endMark, 0,
    false⟩, 0⟩
  rxBuf := 4096
  hdrLen := 10
  failed := false

def smallReceive : Receive where
  capacity := 4
  memory address := UInt8.ofNat (address % 256)
  polls := [⟨0, 0, 0⟩, ⟨1, 1, 14⟩]
  frame := some [10, 11, 12, 13]

theorem unmixed_smallReceive : init 2 1 4096 false = .ok (some smallDevice) ∧
    ∃ moves last, Run network smallDevice moves last ∧ moves.map Move.label = [smallReceive] ∧
      ∀ move ∈ moves, Received move := by
  obtain ⟨start, made, -, holds⟩ :=
    unmixed_of_run (show 1 ≤ 2 by decide) (by decide) (show 1 ≤ 1 by decide) 4096 false
  have evaluated : init 2 1 4096 false = .ok (some smallDevice) := rfl
  have same : start = smallDevice := by
    rw [evaluated] at made
    cases made
    rfl
  rw [same] at holds
  have run : Run network smallDevice _ _ := .snoc (.nil smallDevice)
    (show network.step smallDevice smallReceive _ from ⟨by decide, rfl⟩)
  exact ⟨evaluated, _, _, run, rfl, (holds _ _ run).1⟩

end Mmurtl.Net

/-
This file models how request blocks cross the system-call boundary and proves that they
arrive unforged and undamaged.

The kernel reads and writes a user's request block at byte offsets of its own; the user
library declares it as a C record. The kernel's in-memory message lies between the two.
What a user sends and what the receiver reads are compared through both layouts and
through the queue between them.
-/

import Mmurtl.Library.Records
import Mmurtl.Scheduler.Delivery

namespace Mmurtl.Syscall

open Transition Bytes Records Scheduler

variable {count receiver : Nat} {last : System} {earlier later : List (Move System Action)}
  {send : Move System Action} {cpu : CpuIndex} {msg : Rqb} {kick : Option UInt32}
  {after : Scheduler}

/-! ### The kernel's side -/

def rqbUserSize : Nat := 96
def offService : Nat := 0
def offStatus : Nat := 2
def offSender : Nat := 4
def offReceiver : Nat := 8
def offDataSize : Nat := 12
def offData : Nat := 18

/-- A request block in user memory. -/
@[ext]
structure Wire where
  bytes : List UInt8
  length : bytes.length = rqbUserSize
  deriving DecidableEq

/-- An index that stays below a size even under speculation. -/
def arrayIndexNospec (index size : Nat) : Nat := if index < size then index else 0

/-- Some bytes of a block as an array. -/
def Wire.array (wire : Wire) (start count : Nat) (fits : start + count ≤ rqbUserSize) :
    Vector UInt8 count :=
  ⟨(slice wire.bytes start count).toArray, by
    rw [List.size_toArray, length_slice (by rw [wire.length]; exact fits)]⟩

def rqbDecode (wire : Wire) : Rqb :=
  { Rqb.new with
    service := UInt16.ofNat (u16le wire.bytes offService)
    status := UInt16.ofNat (u16le wire.bytes offStatus)
    dataSize := UInt16.ofNat
      (arrayIndexNospec (min (u16le wire.bytes offDataSize) rqbDataSize) (rqbDataSize + 1))
    data := wire.array offData rqbDataSize (by decide) }

/-- The bytes of a message before its payload is put in. -/
def rqbHeader (rqb : Rqb) : List UInt8 :=
  let bytes := patch (List.replicate rqbUserSize 0) offService (le16 rqb.service.toNat)
  let bytes := patch bytes offStatus (le16 rqb.status.toNat)
  let bytes := patch bytes offSender (le32 rqb.senderId)
  let bytes := patch bytes offReceiver (le32 rqb.receiverId)
  patch bytes offDataSize (le16 rqb.dataSize.toNat)

def rqbEncode (rqb : Rqb) : Wire where
  bytes := patch (rqbHeader rqb) offData rqb.data.toList
  length := by
    rw [length_patch]
    · rfl
    · rw [Vector.length_toList]
      exact Nat.le_of_ble_eq_true rfl

/-! ### The user's side -/

/-- The request block of the user library. -/
@[ext]
structure UserRqb where
  service : UInt16
  status : UInt16
  sender : UInt32
  receiver : UInt32
  dataSize : UInt16
  reserved : Vector UInt8 4
  data : Vector UInt8 rqbDataSize
  pad : Vector UInt8 14

variable {rqb : UserRqb}

namespace UserRqb

def fields (rqb : UserRqb) : List Field :=
  [⟨2, le16 rqb.service.toNat⟩, ⟨2, le16 rqb.status.toNat⟩, ⟨4, le32 rqb.sender.toNat⟩,
    ⟨4, le32 rqb.receiver.toNat⟩, ⟨2, le16 rqb.dataSize.toNat⟩, ⟨1, rqb.reserved.toList⟩,
    ⟨1, rqb.data.toList⟩, ⟨1, rqb.pad.toList⟩]

/-- The alignment and size of each field. -/
def layout : List (Nat × Nat) :=
  [(2, 2), (2, 2), (4, 4), (4, 4), (2, 2), (1, 4), (1, rqbDataSize), (1, 14)]

theorem shape_fields (rqb : UserRqb) : rqb.fields.map Field.shape = layout := by
  simp [fields, Field.shape, layout]

/-- Where the user library reads a field. -/
def place (index : Nat) : Nat := offset 0 layout index

/-- The payload of a request block, at most as long as its data. -/
def payload (rqb : UserRqb) : List UInt8 := rqb.data.toList.take (min rqb.dataSize.toNat 64)

theorem image_fields (rqb : UserRqb) :
    image 0 rqb.fields = le16 rqb.service.toNat ++ (le16 rqb.status.toNat ++
      (le32 rqb.sender.toNat ++ (le32 rqb.receiver.toNat ++ (le16 rqb.dataSize.toNat ++
        (rqb.reserved.toList ++ (rqb.data.toList ++ rqb.pad.toList)))))) := by
  simp [image, fields, padding, Nat.mod_one]

/-- A request block as it lies in user memory. -/
def wire (rqb : UserRqb) : Wire where
  bytes := image 0 rqb.fields
  length := by
    rw [image_fields]
    simp only [List.length_append, length_le16, length_le32, Vector.length_toList]
    rfl

/-- A request block as the user library reads it. -/
def ofWire (wire : Wire) : UserRqb where
  service := UInt16.ofNat (u16le wire.bytes (place 0))
  status := UInt16.ofNat (u16le wire.bytes (place 1))
  sender := UInt32.ofNat (u32le wire.bytes (place 2))
  receiver := UInt32.ofNat (u32le wire.bytes (place 3))
  dataSize := UInt16.ofNat (u16le wire.bytes (place 4))
  reserved := wire.array (place 5) 4 (by decide)
  data := wire.array (place 6) rqbDataSize (by decide)
  pad := wire.array (place 7) 14 (by decide)

end UserRqb

/-! ### The two layouts agree -/

section Fields

variable {data : List UInt8} {start : Nat}

theorem word_of_slice (value : UInt16) (holds : slice data start 2 = le16 value.toNat) :
    UInt16.ofNat (u16le data start) = value := by
  rw [u16le_of_slice holds, Nat.mod_eq_of_lt value.toNat_lt, UInt16.ofNat_toNat]

theorem doubleWord_of_slice (value : UInt32) (holds : slice data start 4 = le32 value.toNat) :
    UInt32.ofNat (u32le data start) = value := by
  rw [u32le_of_slice holds, Nat.mod_eq_of_lt value.toNat_lt, UInt32.ofNat_toNat]

theorem array_of_slice {wire : Wire} (fits : start + count ≤ rqbUserSize)
    (value : Vector UInt8 count) (holds : slice wire.bytes start count = value.toList) :
    wire.array start count fits = value := by
  rw [← Vector.toList_inj]
  exact holds

end Fields

namespace UserRqb

/-- Every field lies at its place. -/
theorem slice_wire (rqb : UserRqb) (index : Nat) {field : Field}
    (found : rqb.fields[index]? = some field) :
    slice rqb.wire.bytes (place index) field.bytes.length = field.bytes := by
  have here : slice (image 0 rqb.fields) (offset 0 (rqb.fields.map Field.shape) index - 0)
      field.bytes.length = field.bytes := slice_image found
  rw [shape_fields, Nat.sub_zero] at here
  exact here

theorem slice_wire_array (rqb : UserRqb) (index : Nat) {align : Nat} {value : Vector UInt8 count}
    (found : rqb.fields[index]? = some ⟨align, value.toList⟩) :
    slice rqb.wire.bytes (place index) count = value.toList := by
  have here := rqb.slice_wire index found
  rw [Vector.length_toList] at here
  exact here

/-- The user library reads back what it stored. -/
theorem ofWire_wire (rqb : UserRqb) : ofWire rqb.wire = rqb := by
  refine UserRqb.ext ?_ ?_ ?_ ?_ ?_ ?_ ?_ ?_
  · exact word_of_slice _ (rqb.slice_wire 0 rfl)
  · exact word_of_slice _ (rqb.slice_wire 1 rfl)
  · exact doubleWord_of_slice _ (rqb.slice_wire 2 rfl)
  · exact doubleWord_of_slice _ (rqb.slice_wire 3 rfl)
  · exact word_of_slice _ (rqb.slice_wire 4 rfl)
  · exact array_of_slice (by decide) _ (rqb.slice_wire_array 5 rfl)
  · exact array_of_slice (by decide) _ (rqb.slice_wire_array 6 rfl)
  · exact array_of_slice (by decide) _ (rqb.slice_wire_array 7 rfl)

/-- What the kernel takes from a user's request block: its identities, its reserved bytes and
its padding play no part. -/
theorem rqbDecode_wire (rqb : UserRqb) :
    rqbDecode rqb.wire = { Rqb.new with
      service := rqb.service
      status := rqb.status
      dataSize := UInt16.ofNat (min rqb.dataSize.toNat rqbDataSize)
      data := rqb.data } := by
  have service : UInt16.ofNat (u16le rqb.wire.bytes offService) = rqb.service :=
    word_of_slice _ (rqb.slice_wire 0 rfl)
  have status : UInt16.ofNat (u16le rqb.wire.bytes offStatus) = rqb.status :=
    word_of_slice _ (rqb.slice_wire 1 rfl)
  have size : UInt16.ofNat (u16le rqb.wire.bytes offDataSize) = rqb.dataSize :=
    word_of_slice _ (rqb.slice_wire 4 rfl)
  have data : rqb.wire.array offData rqbDataSize (by decide) = rqb.data :=
    array_of_slice _ _ (rqb.slice_wire_array 6 rfl)
  have count : u16le rqb.wire.bytes offDataSize = rqb.dataSize.toNat := by
    rw [← size, UInt16.toNat_ofNat_of_lt' (u16le_lt _ _)]
  have bounded : min rqb.dataSize.toNat rqbDataSize < rqbDataSize + 1 :=
    Nat.lt_succ_of_le (Nat.min_le_right ..)
  rw [rqbDecode, service, status, data, count, arrayIndexNospec, if_pos bounded]

/-- What the user library reads where the kernel has written a message. -/
def ofRqb (rqb : Rqb) : UserRqb where
  service := rqb.service
  status := rqb.status
  sender := UInt32.ofNat rqb.senderId
  receiver := UInt32.ofNat rqb.receiverId
  dataSize := rqb.dataSize
  reserved := Vector.replicate 4 0
  data := rqb.data
  pad := Vector.replicate 14 0

theorem rqbEncode_eq (rqb : Rqb) (sender : rqb.senderId < 2 ^ 32)
    (receiver : rqb.receiverId < 2 ^ 32) : rqbEncode rqb = (ofRqb rqb).wire := by
  have from_ : (ofRqb rqb).sender.toNat = rqb.senderId := UInt32.toNat_ofNat_of_lt' sender
  have to_ : (ofRqb rqb).receiver.toNat = rqb.receiverId := UInt32.toNat_ofNat_of_lt' receiver
  have front : (rqbHeader rqb).take offData = le16 rqb.service.toNat ++ (le16 rqb.status.toNat ++
      (le32 rqb.senderId ++ (le32 rqb.receiverId ++ (le16 rqb.dataSize.toNat ++
        List.replicate 4 0)))) := rfl
  have back : (rqbHeader rqb).drop (offData + rqbDataSize) = List.replicate 14 0 := rfl
  apply Wire.ext
  show patch (rqbHeader rqb) offData rqb.data.toList = image 0 (ofRqb rqb).fields
  rw [image_fields, from_, to_, patch, Vector.length_toList, front, back]
  simp only [List.append_assoc]
  rfl

end UserRqb

/-! ### From sender to receiver -/

/-- The step of the kernel that the system call for sending a request block comes to. -/
def sysSendRqb (cpu : CpuIndex) (tid : UInt64) (wire : Wire) : Action :=
  .send cpu (tid.toNat % 2 ^ 32) (rqbDecode wire)

/-- What a receiver sees of a request block that a task has sent. -/
structure Arrives (rqb : UserRqb) (sender receiver : Nat) (seen : UserRqb) : Prop where
  service : seen.service = rqb.service
  status : seen.status = rqb.status
  payload : seen.payload = rqb.payload
  length : seen.payload.length = min rqb.dataSize.toNat 64
  sender : seen.sender.toNat = sender
  receiver : seen.receiver.toNat = receiver

/-- Two request blocks that differ at most in identities, reserved bytes and padding. -/
structure SameRequest (rqb other : UserRqb) : Prop where
  service : other.service = rqb.service
  status : other.status = rqb.status
  dataSize : other.dataSize = rqb.dataSize
  data : other.data = rqb.data

theorem SameRequest.sysSendRqb {other : UserRqb} (same : SameRequest rqb other) (cpu : CpuIndex)
    (tid : UInt64) : sysSendRqb cpu tid other.wire = sysSendRqb cpu tid rqb.wire := by
  rw [Syscall.sysSendRqb, other.rqbDecode_wire, same.service, same.status, same.dataSize,
    same.data, ← rqb.rqbDecode_wire]
  rfl

theorem arrives_ofWire (rqb : UserRqb) {sender : Nat} (senderFits : sender < 2 ^ 32)
    (receiverFits : receiver < 2 ^ 32) :
    Arrives rqb sender receiver
      (UserRqb.ofWire (rqbEncode ((rqbDecode rqb.wire).address sender receiver))) := by
  have size : (UInt16.ofNat (min rqb.dataSize.toNat rqbDataSize)).toNat =
      min rqb.dataSize.toNat 64 :=
    UInt16.toNat_ofNat_of_lt' (Nat.lt_of_le_of_lt (Nat.min_le_right ..) (by decide))
  have payload : (UserRqb.ofRqb ((rqbDecode rqb.wire).address sender receiver)).payload =
      rqb.payload := by
    rw [UserRqb.payload, UserRqb.payload, rqb.rqbDecode_wire]
    show List.take (min (UInt16.ofNat (min rqb.dataSize.toNat rqbDataSize)).toNat 64) _ = _
    rw [size, Nat.min_assoc, Nat.min_self]
    rfl
  rw [UserRqb.rqbEncode_eq _ senderFits receiverFits, UserRqb.ofWire_wire]
  refine ⟨?_, ?_, payload, ?_, UInt32.toNat_ofNat_of_lt' senderFits,
    UInt32.toNat_ofNat_of_lt' receiverFits⟩
  · rw [rqb.rqbDecode_wire]
    rfl
  · rw [rqb.rqbDecode_wire]
    rfl
  · rw [payload, UserRqb.payload, List.length_take, Vector.length_toList]
    exact Nat.min_eq_left (Nat.min_le_right ..)

/-- The request a task takes with the number of an accepted send is the one that was sent. -/
theorem takes_of_accepted {start : System} (boot : BootSystem start)
    (run : Run kernel start (earlier ++ send :: later) last) {taken : Rqb}
    (sends : send.label = .send cpu receiver msg)
    (accepted : send.before.scheduler.postRequest cpu receiver msg = some (.ok kick, after))
    (received : (takes receiver (earlier ++ send :: later))[(posts receiver earlier).length]? =
      some taken) :
    ∃ sender, send.before.scheduler.currentId cpu = some sender ∧ sender < 2 ^ 32 ∧
      taken = msg.address sender receiver := by
  obtain ⟨before, _⟩ := run.split
  have reachable := (Reachable.init boot).run before
  rcases postRequest_cases accepted with ⟨_, wrong, _⟩ | ⟨me, sender, _, _, current, _⟩
  · cases wrong
  have caller := currentId_of_current current
  have bounded := (consistent_of_reachable reachable).bounded me sender current.2
  refine ⟨sender.id, caller, Nat.lt_trans bounded (nextId_lt_of_reachable reachable), ?_⟩
  have posted : postedTo receiver send = some (msg.address sender.id receiver) := by
    rw [postedTo, sends]
    simp only [accepted, if_true, caller, Option.map_some]
    rfl
  obtain ⟨_, ordered⟩ := (delivered_run receiver boot run).1
  have listed : (posts receiver (earlier ++ send :: later))[(posts receiver earlier).length]? =
      some (msg.address sender.id receiver) := by
    rw [posts, List.filterMap_append, List.filterMap_cons, posted]
    exact List.getElem?_append_right (Nat.le_refl _) |>.trans (by simp)
  rw [← ordered, List.getElem?_append_left (List.getElem?_eq_some_iff.mp received).1, received]
    at listed
  exact Option.some.inj listed

/-- A request block that is sent and taken arrives with its service, status and payload, with
the identities of the two tasks, and whatever else the sender's block held. -/
theorem rqb_crosses {start last : System} {earlier later : List (Move System Action)}
    {send : Move System Action} (boot : BootSystem start)
    (run : Run kernel start (earlier ++ send :: later) last) {cpu : CpuIndex} {tid : UInt64}
    {rqb : UserRqb} (sends : send.label = sysSendRqb cpu tid rqb.wire) {kick : Option UInt32}
    {after : Scheduler}
    (accepted : send.before.scheduler.postRequest cpu (tid.toNat % 2 ^ 32) (rqbDecode rqb.wire) =
      some (.ok kick, after)) {msg : Rqb}
    (received : (takes (tid.toNat % 2 ^ 32) (earlier ++ send :: later))[
      (posts (tid.toNat % 2 ^ 32) earlier).length]? = some msg) :
    (∃ sender, send.before.scheduler.currentId cpu = some sender ∧
      Arrives rqb sender (tid.toNat % 2 ^ 32) (.ofWire (rqbEncode msg))) ∧
    ∀ other, SameRequest rqb other → sysSendRqb cpu tid other.wire = send.label := by
  refine ⟨?_, fun other same => (same.sysSendRqb cpu tid).trans sends.symm⟩
  obtain ⟨sender, caller, fits, taken⟩ := takes_of_accepted boot run sends accepted received
  refine ⟨sender, caller, ?_⟩
  rw [taken]
  exact arrives_ofWire rqb fits (Nat.mod_lt _ (by decide))

/-- A request block with forged identities and filled padding. -/
def greeting : UserRqb :=
  ⟨7, 0, 99, 98, 3, .replicate 4 1, .replicate rqbDataSize 65, .replicate 14 2⟩

/-- Two tasks are created and run. -/
def startActions : List Action :=
  [.createTask client, .createTask server, .addTask client, .addTask server,
    .interrupt 0 0x500 true true, .interrupt 1 0x600 true true]

def greetActions : List Action := startActions ++ [sysSendRqb 0 4 greeting.wire, .receive 1]

/-- The receiver sees the sender's own identity, and three bytes of payload. -/
theorem rqb_crosses_greeting :
    ∃ msg, (takes 4 (twoCpus.moves greetActions))[0]? = some msg ∧
      Arrives greeting 3 4 (.ofWire (rqbEncode msg)) := by
  have prepared : ∀ task, .createTask task ∈ greetActions → Prepared task := by
    intro _ member
    simp only [greetActions, startActions, sysSendRqb, List.cons_append, List.nil_append,
      List.mem_cons, Action.createTask.injEq, reduceCtorEq, or_false, List.not_mem_nil] at member
    rcases member with rfl | rfl <;> exact .kernel ..
  have possible : twoCpus.possible greetActions = true := by decide +kernel
  have run := run_moves prepared possible
  have first : (takes 4 (twoCpus.moves greetActions))[0]? =
      some ((rqbDecode greeting.wire).address 3 4) := by decide +kernel
  have caller : (startActions.foldl System.after twoCpus).scheduler.currentId 0 = some 3 := by
    decide +kernel
  have accepted : ∃ kick after, (startActions.foldl System.after twoCpus).scheduler.postRequest 0 4
      (rqbDecode greeting.wire) = some (.ok kick, after) := ⟨_, _, rfl⟩
  rw [greetActions, moves_append] at run first
  obtain ⟨_, _, accepted⟩ := accepted
  obtain ⟨⟨_, sends, arrives⟩, -⟩ := rqb_crosses twoCpus_boot run rfl accepted first
  rw [caller] at sends
  cases sends
  refine ⟨_, ?_, arrives⟩
  rw [greetActions, moves_append]
  exact first

/-! ### Payloads -/

/-- `copy_from_slice` to the first bytes of an array, which panics unless the lengths agree. -/
def copyFromSlice {size : Nat} (data : Vector UInt8 size) (len : Nat) (bytes : List UInt8) :
    Option (Vector UInt8 size) :=
  if fits : len ≤ size ∧ bytes.length = len then
    some ⟨(bytes ++ data.toList.drop len).toArray, by simp [fits]⟩
  else none

def setData (rqb : Rqb) (data : List UInt8) : Option Rqb := do
  let len := min data.length rqbDataSize
  let stored ← copyFromSlice rqb.data len data
  pure { rqb with data := stored, dataSize := UInt16.ofNat len }

def getData (rqb : Rqb) : List UInt8 :=
  let size := min rqb.dataSize.toNat rqbDataSize
  rqb.data.toList.take (arrayIndexNospec size (rqbDataSize + 1))

def UserRqb.setPayload (rqb : UserRqb) (bytes : List UInt8) : Option UserRqb := do
  let count := min bytes.length 64
  let stored ← copyFromSlice rqb.data count (bytes.take count)
  pure { rqb with data := stored, dataSize := UInt16.ofNat count }

/-- Both setters return, and what is read back is the same part of the bytes. -/
structure PayloadsAgree (bytes : List UInt8) : Prop where
  kernel : ∀ rqb, ∃ stored, setData rqb bytes = some stored ∧ getData stored = bytes.take 64
  user : ∀ rqb : UserRqb, ∃ stored, rqb.setPayload bytes = some stored ∧
    stored.payload = bytes.take 64

theorem copyFromSlice_eq {bytes : List UInt8} (data : Vector UInt8 rqbDataSize)
    (fits : bytes.length ≤ rqbDataSize) :
    ∃ stored, copyFromSlice data bytes.length bytes = some stored ∧
      stored.toList.take (min (UInt16.ofNat bytes.length).toNat rqbDataSize) = bytes := by
  have small : (UInt16.ofNat bytes.length).toNat = bytes.length :=
    UInt16.toNat_ofNat_of_lt' (Nat.lt_of_le_of_lt fits (by decide))
  refine ⟨_, dif_pos ⟨fits, rfl⟩, ?_⟩
  rw [small, Nat.min_eq_left fits]
  exact List.take_left

/-- The kernel copies the whole slice, and does not return from a longer one than fits. -/
theorem not_payloadsAgree {bytes : List UInt8} (long : rqbDataSize < bytes.length) :
    ¬PayloadsAgree bytes := by
  intro agree
  obtain ⟨_, set, -⟩ := agree.kernel Rqb.new
  rw [setData, copyFromSlice, dif_neg (by omega)] at set
  cases set

theorem payloadsAgree_iff (bytes : List UInt8) :
    PayloadsAgree bytes ↔ bytes.length ≤ rqbDataSize := by
  refine ⟨fun agree => Nat.le_of_not_lt fun long => not_payloadsAgree long agree, fun fits => ?_⟩
  have count : min bytes.length rqbDataSize = bytes.length := Nat.min_eq_left fits
  have whole : bytes.take 64 = bytes := List.take_of_length_le fits
  refine ⟨fun rqb => ?_, fun rqb => ?_⟩ <;>
    obtain ⟨_, copied, taken⟩ := copyFromSlice_eq rqb.data fits
  · refine ⟨_, by rw [setData, count, copied]; rfl, ?_⟩
    rw [getData, arrayIndexNospec, if_pos (by omega), taken, whole]
  · refine ⟨_, by rw [UserRqb.setPayload, show min bytes.length 64 = bytes.length from count,
      List.take_length, copied]; rfl, ?_⟩
    rw [UserRqb.payload, whole]
    exact taken

theorem not_payloadsAgree_long : ¬PayloadsAgree (List.replicate 65 0) :=
  not_payloadsAgree (by decide)

end Mmurtl.Syscall

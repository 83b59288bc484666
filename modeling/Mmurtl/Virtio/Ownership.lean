/-
This file models the descriptor ownership of a virtqueue and proves that a hostile device
cannot break it. The free list and the pending chains share one array of successors. The
invariant says that the descriptors of the free list and of the chains handed out are
together all descriptors of the queue, each once. Which chains are handed out is read off
the history of the calls and their results.
-/

import Mmurtl.Library.Program
import Mmurtl.Library.Threads

namespace Mmurtl.Virtio

open List

variable {id count target point : Nat} {expected : Option Nat}

/-! ### The ownership records -/

/-- The successor of the last descriptor of a list. -/
def endMark : Nat := 65535

/-- The largest value of a sixteen-bit number, and one more. -/
def wordLimit : Nat := 65536

/-- The descriptor metadata the driver owns. -/
structure Ownership where
  next : List Nat
  pending : List Nat
  freeHead : Nat
  free : Nat
  broken : Bool
  deriving DecidableEq

variable {after : Ownership}

/-- A call of the ownership records: no error, but possibly a panic. -/
abbrev Call (α : Type) := Program Ownership Empty α

namespace Ownership

/-- An array of successors in which the first few descriptors lead to the next one each. -/
def successors (count size : Nat) : List Nat :=
  (List.range count).foldl (fun next i => next.set i (i + 1)) (List.replicate size endMark)

/-- The records of a queue in which every descriptor is free. -/
def new (size : Nat) : Outcome Empty Ownership :=
  if size = 0 then .panic
  else .ok {
    next := successors (size - 1) size
    pending := List.replicate size 0
    freeHead := 0
    free := size
    broken := false }

/-- Stop the queue. -/
def poison : Call Unit := Program.modify fun queue => { queue with broken := true }

/-- The successor of a descriptor. -/
def nextOf (id : Nat) : Call Nat := do
  let next ← Program.gets Ownership.next
  Program.expect next[id]?

/-- The descriptor some successors further. -/
def follow : Nat → Nat → Call Nat
  | 0, tail => pure tail
  | count + 1, tail => do
      let tail ← nextOf tail
      follow count tail

/-- Set the successor of a descriptor. -/
def setNext (id target : Nat) : Call Unit := do
  let next ← Program.gets Ownership.next
  Program.require (id < next.length)
  Program.modify fun queue => { queue with next := queue.next.set id target }

/-- Set the length of the pending chain of a descriptor. -/
def setPending (id count : Nat) : Call Unit := do
  let pending ← Program.gets Ownership.pending
  Program.require (id < pending.length)
  Program.modify fun queue => { queue with pending := queue.pending.set id count }

/-- Take a chain of descriptors from the free list. -/
def reserve (count : Nat) : Call (Option Nat) := do
  let queue ← Program.gets fun queue => queue
  if queue.broken ∨ count = 0 ∨ queue.free < count then
    pure none
  else do
    let head := queue.freeHead
    let tail ← follow (count - 1) head
    let rest ← nextOf tail
    Program.modify fun queue => { queue with freeHead := rest }
    setNext tail endMark
    setPending head (count % wordLimit)
    let free ← Program.gets Ownership.free
    Program.require (count % wordLimit ≤ free)
    Program.modify fun queue => { queue with free := free - count % wordLimit }
    pure (some head)

/-- Give a chain of descriptors back. A malformed completion stops the queue. -/
def complete (id count : Nat) (expected : Option Nat) : Call (Option Nat) := do
  let queue ← Program.gets fun queue => queue
  if queue.broken then
    pure none
  else if queue.pending.length ≤ id ∨ count = 0 ∨ queue.pending[id]? ≠ some count ∨
      expected.any (fun head => id ≠ head) then do
    poison
    pure none
  else do
    let head := id % wordLimit
    let tail ← follow (count - 1) head
    setNext tail queue.freeHead
    Program.modify fun queue => { queue with freeHead := head }
    setPending head 0
    let free ← Program.gets Ownership.free
    Program.require (free + count < wordLimit)
    Program.modify fun queue => { queue with free := free + count }
    pure (some head)

end Ownership

/-! ### Histories -/

/-- A call with the arguments an adversary chose. -/
inductive Request where
  | reserve (count : Nat)
  | complete (id count : Nat) (expected : Option Nat)
  deriving DecidableEq

/-- A call and what it returned. -/
abbrev Event := Request × Option Nat

/-- Run one call. -/
def Request.run : Request → Call (Option Nat)
  | .reserve count => Ownership.reserve count
  | .complete id count expected => Ownership.complete id count expected

/-- Run calls one after another. -/
def runAll : List Request → Call (List Event)
  | [] => pure []
  | request :: rest => do
      let result ← request.run
      let events ← runAll rest
      pure ((request, result) :: events)

/-- The chains handed out after one more call, each as its head and its length. -/
def Event.holds (held : List (Nat × Nat)) : Event → List (Nat × Nat)
  | (.reserve count, some head) => (head, count) :: held
  | (.complete _ _ _, some head) => held.filter fun chain => chain.1 ≠ head
  | (_, none) => held

/-- The chains reserved in a history and not completed since. -/
def outstanding (events : List Event) : List (Nat × Nat) :=
  events.foldl Event.holds []

/-- A completion of something that is not handed out, or not the chain that is expected. -/
def Request.Malformed (held : List (Nat × Nat)) : Request → Prop
  | .reserve _ => False
  | .complete id count expected => (id, count) ∉ held ∨ ∃ head, expected = some head ∧ head ≠ id

/-! ### The partition -/

namespace Ownership

/-- The successor of a descriptor, or the end where there is no such descriptor. -/
def link (queue : Ownership) (id : Nat) : Nat := queue.next.getD id endMark

/-- The free descriptors, in their order. -/
def freeList (queue : Ownership) : List Nat := List.iterate queue.link queue.freeHead queue.free

/-- The descriptors of a chain, in their order. -/
def chain (queue : Ownership) (held : Nat × Nat) : List Nat :=
  List.iterate queue.link held.1 held.2

/-- The free list and the chains handed out end where their counts say, and hold every
descriptor of the queue exactly once. -/
structure Partitioned (size : Nat) (held : List (Nat × Nat)) (queue : Ownership) : Prop where
  freeEnds : queue.link^[queue.free] queue.freeHead = endMark
  chainEnds : ∀ chain ∈ held, 0 < chain.2 ∧ queue.link^[chain.2] chain.1 = endMark
  descriptors : (queue.freeList ++ held.flatMap queue.chain).Perm (List.range size)

/-- The partition, with what the arrays say about it: their lengths, and that the pending
counts are those of the chains handed out. -/
structure Owned (size : Nat) (held : List (Nat × Nat)) (queue : Ownership) : Prop
    extends Partitioned size held queue where
  nextLength : queue.next.length = size
  pendingLength : queue.pending.length = size
  heads : (held.map Prod.fst).Nodup
  counts : ∀ id count, count ≠ 0 → (queue.pending[id]? = some count ↔ (id, count) ∈ held)

section Owned

variable {size : Nat} {held : List (Nat × Nat)} {queue : Ownership}

section

variable (parts : Partitioned size held queue)
include parts

theorem Partitioned.nodup : (queue.freeList ++ held.flatMap queue.chain).Nodup :=
  parts.descriptors.nodup_iff.mpr nodup_range

theorem Partitioned.lt_of_mem (member : id ∈ queue.freeList ++ held.flatMap queue.chain) :
    id < size :=
  mem_range.mp (parts.descriptors.mem_iff.mp member)

theorem Partitioned.free_lt (member : id ∈ queue.freeList) : id < size :=
  parts.lt_of_mem (mem_append_left _ member)

theorem Partitioned.chain_lt {chain : Nat × Nat} (out : chain ∈ held)
    (member : id ∈ queue.chain chain) : id < size :=
  parts.lt_of_mem (mem_append_right _ (mem_flatMap.mpr ⟨chain, out, member⟩))

/-- A head is a descriptor of its chain. -/
theorem Partitioned.head_mem {chain : Nat × Nat} (out : chain ∈ held) :
    chain.1 ∈ queue.chain chain :=
  mem_iterate_of_lt (parts.chainEnds chain out).1

end

/-! ### The arrays -/

theorem next_eq_link (inside : id < queue.next.length) :
    queue.next[id]? = some (queue.link id) := by
  rw [link, getD_eq_getElem?_getD, List.getElem?_eq_getElem inside, Option.getD_some]

theorem link_set (inside : id < queue.next.length) (target : Nat) :
    (fun other => (queue.next.set id target).getD other endMark) =
      Function.update queue.link id target := by
  funext other
  rw [getD_eq_getElem?_getD, getElem?_set]
  by_cases same : id = other
  · subst same
    rw [if_pos rfl, if_pos inside, Function.update_self, Option.getD_some]
  · rw [if_neg same, Function.update_of_ne (Ne.symm same), link, getD_eq_getElem?_getD]

theorem nextOf_eq (inside : id < queue.next.length) :
    nextOf id queue = (.ok (queue.link id), queue) := by
  rw [nextOf, Program.gets_bind_run, next_eq_link inside, Program.run_expect_some]

/-- Following successors that are descriptors of the queue does not panic. -/
theorem follow_eq {tail : Nat}
    (inside : ∀ id ∈ List.iterate queue.link tail count, id < queue.next.length) :
    follow count tail queue = (.ok (queue.link^[count] tail), queue) := by
  induction count generalizing tail with
  | zero => rfl
  | succ count ih =>
    rw [List.iterate] at inside
    rw [follow, Program.bind_of_ok (nextOf_eq (inside tail mem_cons_self)),
      ih (forall_mem_cons.mp inside).2, Function.iterate_succ_apply]

theorem setNext_bind {α : Type} (rest : Unit → Call α) (inside : id < queue.next.length) :
    (setNext id target >>= rest) queue =
      rest () { queue with next := queue.next.set id target } := by
  refine Program.bind_of_ok ?_
  rw [setNext, Program.gets_bind_run, Program.bind_of_ok (Program.run_require inside queue),
    Program.run_modify]

theorem setPending_bind {α : Type} (rest : Unit → Call α) (inside : id < queue.pending.length) :
    (setPending id count >>= rest) queue =
      rest () { queue with pending := queue.pending.set id count } := by
  refine Program.bind_of_ok ?_
  rw [setPending, Program.gets_bind_run, Program.bind_of_ok (Program.run_require inside queue),
    Program.run_modify]

/-- The pending counts after one of them was set. -/
theorem pending_set (inside : id < queue.pending.length) (count other : Nat) :
    (queue.pending.set id count)[other]? =
      if other = id then some count else queue.pending[other]? := by
  rw [getElem?_set]
  by_cases same : id = other
  · rw [if_pos same, if_pos inside, if_pos same.symm]
  · rw [if_neg same, if_neg (Ne.symm same)]

/-! ### Reserving -/

/-- The records after a chain was taken from the free list. -/
def reserved (queue : Ownership) (count : Nat) : Ownership where
  next := queue.next.set (queue.link^[count - 1] queue.freeHead) endMark
  pending := queue.pending.set queue.freeHead count
  freeHead := queue.link^[count] queue.freeHead
  free := queue.free - count
  broken := queue.broken

/-- A request that asks for too much, or for nothing, or comes too late changes nothing. -/
theorem reserve_eq_none (closed : queue.broken = true ∨ count = 0 ∨ queue.free < count) :
    reserve count queue = (.ok none, queue) := by
  rw [reserve, Program.gets_bind_run, if_pos closed, Program.run_pure]

/-- Changing the successor of a descriptor leaves a chain without it as it is. -/
theorem chains_eq_of_update (changed : after.link = Function.update queue.link point target)
    (away : ∀ chain ∈ held, point ∉ queue.chain chain) :
    held.flatMap after.chain = held.flatMap queue.chain := by
  refine flatMap_congr fun chain out => ?_
  rw [Ownership.chain, changed]
  exact (iterate_update_of_notMem target (away chain out)).1

theorem chainEnds_of_update
    (ends : ∀ chain ∈ held, 0 < chain.2 ∧ queue.link^[chain.2] chain.1 = endMark)
    (changed : after.link = Function.update queue.link point target)
    (away : ∀ chain ∈ held, point ∉ queue.chain chain) :
    ∀ chain ∈ held, 0 < chain.2 ∧ after.link^[chain.2] chain.1 = endMark := by
  intro chain out
  rw [changed, (iterate_update_of_notMem target (away chain out)).2]
  exact ends chain out

/-- Distinct keys: an element and those with another key are the whole list. -/
theorem perm_cons_filter (heads : (held.map Prod.fst).Nodup) {chain : Nat × Nat}
    (out : chain ∈ held) : held.Perm (chain :: held.filter fun other => other.1 ≠ chain.1) := by
  refine (perm_cons_erase out).trans (List.Perm.of_eq (congrArg _ ?_))
  rw [(List.Nodup.of_map _ heads).erase_eq_filter]
  refine filter_congr fun other member => ?_
  rw [Bool.eq_iff_iff, bne_iff_ne, decide_eq_true_iff]
  exact not_congr ⟨congrArg Prod.fst, inj_on_of_nodup_map heads member out⟩

/-- A completion after the queue was stopped changes nothing. -/
theorem complete_eq_none (stopped : queue.broken = true) :
    complete id count expected queue = (.ok none, queue) := by
  rw [complete, Program.gets_bind_run, if_pos stopped, Program.run_pure]

section

variable (owned : Owned size held queue)
include owned

theorem Owned.free_le : queue.free ≤ size := by
  have length := owned.descriptors.length_eq
  rw [length_append, length_range, freeList, length_iterate] at length
  omega

/-- What a request for a chain that is there returns, and leaves behind. -/
theorem reserve_eq (bounded : size < wordLimit)
    (sound : queue.broken = false) (positive : count ≠ 0) (enough : count ≤ queue.free) :
    reserve count queue = (.ok (some queue.freeHead), queue.reserved count) := by
  have fits : count % wordLimit = count :=
    Nat.mod_eq_of_lt (lt_of_le_of_lt (enough.trans owned.free_le) bounded)
  have inside : ∀ steps < queue.free, queue.link^[steps] queue.freeHead < queue.next.length :=
    fun steps before => owned.nextLength ▸ owned.free_lt (mem_iterate_of_lt before)
  have walk : follow (count - 1) queue.freeHead queue =
      (.ok (queue.link^[count - 1] queue.freeHead), queue) := by
    refine follow_eq fun id member => ?_
    obtain ⟨steps, before, rfl⟩ := mem_iterate.mp member
    exact inside steps (by omega)
  have tailInside := inside (count - 1) (by omega)
  have headInside : queue.freeHead < queue.pending.length := by
    rw [owned.pendingLength, ← owned.nextLength]
    exact inside 0 (by omega)
  have rest : queue.link (queue.link^[count - 1] queue.freeHead) =
      queue.link^[count] queue.freeHead := by
    obtain ⟨_, rfl⟩ := Nat.exists_eq_succ_of_ne_zero positive
    exact (Function.iterate_succ_apply' ..).symm
  have open_ : ¬(queue.broken = true ∨ count = 0 ∨ queue.free < count) := by
    rw [sound]
    simp only [Bool.false_eq_true, false_or, not_or, not_lt]
    exact ⟨positive, enough⟩
  rw [reserve, Program.gets_bind_run, if_neg open_, Program.bind_of_ok walk,
    Program.bind_of_ok (nextOf_eq tailInside), rest, Program.modify_bind_run,
    setNext_bind, setPending_bind, Program.gets_bind_run,
    Program.bind_of_ok (Program.run_require (fits.symm ▸ enough) _),
    Program.modify_bind_run, Program.run_pure, fits]
  · rfl
  · exact headInside
  · exact tailInside

/-- Taking a chain from the free list keeps the partition; the chain is handed out. -/
theorem Owned.reserve (positive : count ≠ 0) (enough : count ≤ queue.free) :
    Owned size ((queue.freeHead, count) :: held) (queue.reserved count) := by
  obtain ⟨before, rfl⟩ := Nat.exists_eq_succ_of_ne_zero positive
  obtain ⟨left, total⟩ := Nat.exists_eq_add_of_le enough
  have whole : queue.freeList = List.iterate queue.link queue.freeHead (before + 1) ++
      List.iterate queue.link (queue.link^[before + 1] queue.freeHead) left := by
    rw [freeList, total, iterate_add]
  have distinct := owned.nodup
  rw [whole, append_assoc] at distinct
  have tailMem : queue.link^[before] queue.freeHead ∈
      List.iterate queue.link queue.freeHead (before + 1) :=
    mem_iterate_of_lt (Nat.lt_succ_self before)
  have tailAway := not_or.mp fun member =>
    disjoint_of_nodup_append distinct tailMem (mem_append.mpr member)
  have chainsAway : ∀ chain ∈ held, queue.link^[before] queue.freeHead ∉ queue.chain chain :=
    fun chain out member => tailAway.2 (mem_flatMap.mpr ⟨chain, out, member⟩)
  have headFree : queue.freeHead ∈ queue.freeList :=
    mem_iterate_of_lt (show 0 < queue.free by omega)
  have headLt : queue.freeHead < queue.pending.length :=
    owned.pendingLength ▸ owned.free_lt headFree
  have headAway : queue.freeHead ∉ held.map Prod.fst := by
    intro member
    obtain ⟨chain, out, same⟩ := mem_map.mp member
    refine disjoint_of_nodup_append owned.nodup headFree
      (mem_flatMap.mpr ⟨chain, out, ?_⟩)
    rw [← same]
    exact owned.head_mem out
  have changed : (queue.reserved (before + 1)).link =
      Function.update queue.link (queue.link^[before] queue.freeHead) endMark := by
    refine link_set ?_ endMark
    rw [owned.nextLength]
    refine owned.free_lt ?_
    rw [whole]
    exact mem_append_left _ tailMem
  obtain ⟨taken, takenEnd⟩ := iterate_update_last endMark
    (last_notMem_of_nodup (List.Nodup.of_append_left distinct))
  obtain ⟨rest, restEnd⟩ := iterate_update_of_notMem endMark tailAway.1
  have freeAfter : (queue.reserved (before + 1)).free = left := by
    rw [reserved, total, Nat.add_sub_cancel_left]
  refine ⟨⟨?_, ?_, ?_⟩, ?_, ?_, ?_, ?_⟩
  · rw [changed, freeAfter]
    refine restEnd.trans ?_
    rw [← Function.iterate_add_apply, Nat.add_comm, ← total]
    exact owned.freeEnds
  · intro chain out
    rcases mem_cons.mp out with rfl | out
    · rw [changed]
      exact ⟨Nat.succ_pos _, takenEnd⟩
    · exact chainEnds_of_update owned.chainEnds changed chainsAway chain out
  · rw [flatMap_cons, chains_eq_of_update changed chainsAway, freeList, freeAfter,
      Ownership.chain, changed, taken]
    refine List.Perm.trans ?_ owned.descriptors
    rw [whole, append_assoc, ← append_assoc, ← append_assoc]
    exact List.Perm.append_right _ (rest ▸ perm_append_comm)
  · exact (length_set ..).trans owned.nextLength
  · exact (length_set ..).trans owned.pendingLength
  · exact nodup_cons.mpr ⟨headAway, owned.heads⟩
  · intro id count nonzero
    refine (iff_of_eq (congrArg (· = some count) (pending_set headLt (before + 1) id))).trans ?_
    by_cases same : id = queue.freeHead
    · subst same
      rw [if_pos rfl, Option.some_inj, mem_cons, Prod.mk.injEq]
      refine ⟨fun same => Or.inl ⟨rfl, same.symm⟩, fun member => ?_⟩
      rcases member with member | out
      · exact member.2.symm
      · exact absurd (mem_map_of_mem out) headAway
    · rw [if_neg same, owned.counts id count nonzero, mem_cons, Prod.mk.injEq]
      exact ⟨Or.inr, fun member => member.resolve_left fun head => same head.1⟩

/-! ### Completing -/

/-- The records after a chain was given back. -/
def completed (queue : Ownership) (head count : Nat) : Ownership where
  next := queue.next.set (queue.link^[count - 1] head) queue.freeHead
  pending := queue.pending.set head 0
  freeHead := head
  free := queue.free + count
  broken := queue.broken

theorem Owned.free_add_le {chain : Nat × Nat} (out : chain ∈ held) :
    queue.free + chain.2 ≤ size := by
  have length := owned.descriptors.length_eq
  have part := ((perm_cons_filter owned.heads out).flatMap_right queue.chain).length_eq
  rw [flatMap_cons, length_append, Ownership.chain, length_iterate] at part
  rw [length_append, length_range, freeList, length_iterate, part] at length
  omega

/-- What a well-formed completion returns, and leaves behind. -/
theorem complete_eq (bounded : size < wordLimit) (sound : queue.broken = false)
    (out : (id, count) ∈ held) (agrees : ∀ head, expected = some head → head = id) :
    complete id count expected queue = (.ok (some id), queue.completed id count) := by
  have positive : count ≠ 0 := (owned.chainEnds _ out).1.ne'
  have inside : ∀ steps < count, queue.link^[steps] id < size :=
    fun steps before => owned.chain_lt out (mem_iterate_of_lt before)
  have idLt : id < size := inside 0 (Nat.pos_of_ne_zero positive)
  have fits : id % wordLimit = id := Nat.mod_eq_of_lt (idLt.trans bounded)
  have walk : follow (count - 1) id queue = (.ok (queue.link^[count - 1] id), queue) := by
    refine follow_eq fun other member => ?_
    obtain ⟨steps, _, rfl⟩ := mem_iterate.mp member
    rw [owned.nextLength]
    exact inside steps (by omega)
  have wellFormed : ¬(queue.pending.length ≤ id ∨ count = 0 ∨ queue.pending[id]? ≠ some count ∨
      expected.any (fun head => id ≠ head) = true) := by
    have recorded := (owned.counts id count positive).mpr out
    rintro (outside | zero | other | unexpected)
    · rw [owned.pendingLength] at outside
      omega
    · exact positive zero
    · exact other recorded
    · obtain ⟨head, given, differs⟩ := (Option.any_eq_true ..).mp unexpected
      exact of_decide_eq_true differs (agrees head given).symm
  have room : queue.free + count < wordLimit := lt_of_le_of_lt (owned.free_add_le out) bounded
  rw [complete, Program.gets_bind_run, if_neg (sound ▸ Bool.false_ne_true), if_neg wellFormed, fits,
    Program.bind_of_ok walk, setNext_bind, Program.modify_bind_run, setPending_bind,
    Program.gets_bind_run, Program.bind_of_ok (Program.run_require room _),
    Program.modify_bind_run, Program.run_pure]
  · rfl
  · exact owned.pendingLength.symm ▸ idLt
  · exact owned.nextLength.symm ▸ inside (count - 1) (by omega)

/-- A malformed completion stops the queue and changes nothing else. -/
theorem complete_malformed (sound : queue.broken = false)
    (malformed : Request.Malformed held (.complete id count expected)) :
    complete id count expected queue = (.ok none, { queue with broken := true }) := by
  have refused : queue.pending.length ≤ id ∨ count = 0 ∨ queue.pending[id]? ≠ some count ∨
      expected.any (fun head => id ≠ head) = true := by
    rcases malformed with absent | ⟨_, given, differs⟩
    · by_cases zero : count = 0
      · exact Or.inr (Or.inl zero)
      · exact Or.inr (Or.inr (Or.inl fun recorded =>
          absent ((owned.counts id count zero).mp recorded)))
    · refine Or.inr (Or.inr (Or.inr ?_))
      rw [given, Option.any_some]
      exact decide_eq_true (Ne.symm differs)
  rw [complete, Program.gets_bind_run, if_neg (sound ▸ Bool.false_ne_true), if_pos refused, poison,
    Program.modify_bind_run, Program.run_pure]

/-- Giving a chain back keeps the partition; the chain is handed out no more. -/
theorem Owned.complete {head : Nat} (out : (head, count) ∈ held) :
    Owned size (held.filter fun chain => chain.1 ≠ head) (queue.completed head count) := by
  have parts := perm_cons_filter owned.heads out
  obtain ⟨before, rfl⟩ := Nat.exists_eq_succ_of_ne_zero (owned.chainEnds _ out).1.ne'
  have fewer : ∀ chain ∈ held.filter fun chain => chain.1 ≠ head, chain ∈ held :=
    fun chain member => mem_of_mem_filter member
  have descriptors := (((parts.flatMap_right queue.chain).symm.append_left queue.freeList).trans
    owned.descriptors)
  have distinct := descriptors.nodup_iff.mpr nodup_range
  rw [flatMap_cons] at distinct descriptors
  have tailMem : queue.link^[before] head ∈ queue.chain (head, before + 1) :=
    mem_iterate_of_lt (Nat.lt_succ_self before)
  have tailFree : queue.link^[before] head ∉ queue.freeList := fun member =>
    disjoint_of_nodup_append distinct member (mem_append_left _ tailMem)
  have tailAway : ∀ chain ∈ held.filter fun chain => chain.1 ≠ head,
      queue.link^[before] head ∉ queue.chain chain := fun chain member inside =>
    disjoint_of_nodup_append (List.Nodup.of_append_right distinct) tailMem
      (mem_flatMap.mpr ⟨chain, member, inside⟩)
  have headLt : head < queue.pending.length := by
    rw [owned.pendingLength]
    exact owned.chain_lt out (owned.head_mem out)
  have changed : (queue.completed head (before + 1)).link =
      Function.update queue.link (queue.link^[before] head) queue.freeHead := by
    refine link_set ?_ queue.freeHead
    rw [owned.nextLength]
    exact owned.chain_lt out tailMem
  obtain ⟨given, givenEnd⟩ := iterate_update_last queue.freeHead
    (last_notMem_of_nodup (List.Nodup.of_append_left (List.Nodup.of_append_right distinct)))
  obtain ⟨rest, restEnd⟩ := iterate_update_of_notMem queue.freeHead tailFree
  have freeAfter : (queue.completed head (before + 1)).free = before + 1 + queue.free :=
    Nat.add_comm ..
  refine ⟨⟨?_, ?_, ?_⟩, ?_, ?_, ?_, ?_⟩
  · rw [changed, freeAfter, Nat.add_comm, Function.iterate_add_apply]
    refine (congrArg _ givenEnd).trans (restEnd.trans owned.freeEnds)
  · exact chainEnds_of_update (fun chain member => owned.chainEnds chain (fewer chain member))
      changed tailAway
  · rw [chains_eq_of_update changed tailAway, freeList, freeAfter, changed, iterate_add]
    refine List.Perm.trans ?_ descriptors
    rw [← append_assoc]
    refine List.Perm.append_right _ ((List.Perm.of_eq ?_).trans perm_append_comm)
    exact congrArg₂ _ given ((congrArg (List.iterate _ · _) givenEnd).trans rest)
  · exact (length_set ..).trans owned.nextLength
  · exact (length_set ..).trans owned.pendingLength
  · exact owned.heads.sublist (filter_sublist.map _)
  · intro id count nonzero
    refine (iff_of_eq (congrArg (· = some count) (pending_set headLt 0 id))).trans ?_
    rw [mem_filter]
    by_cases same : id = head
    · rw [if_pos same]
      simp [same, Ne.symm nonzero]
    · rw [if_neg same, owned.counts id count nonzero]
      simp [same]

end

end Owned

/-! ### A new queue -/

theorem length_successors (count size : Nat) : (successors count size).length = size := by
  refine List.foldlRecOn _ _ (motive := fun next : List Nat => next.length = size)
    length_replicate fun next kept i _ => ?_
  rw [length_set, kept]

theorem getElem?_successors {size : Nat} (fits : count ≤ size) (id : Nat) :
    (successors count size)[id]? =
      if id < count then some (id + 1) else (List.replicate size endMark)[id]? := by
  induction count with
  | zero => rfl
  | succ count ih =>
    have step : successors (count + 1) size = (successors count size).set count (count + 1) := by
      rw [successors, range_succ, foldl_append]
      rfl
    rw [step, getElem?_set, length_successors, ih (by omega)]
    by_cases same : count = id
    · rw [if_pos same, if_pos (by omega), if_pos (by omega), same]
    · rw [if_neg same]
      by_cases before : id < count
      · rw [if_pos before, if_pos (by omega)]
      · rw [if_neg before, if_neg (by omega)]

/-- In a new array every descriptor leads to the next one, the last one to the end. -/
theorem getD_successors (size id : Nat) :
    (successors (size - 1) size).getD id endMark = if id + 1 < size then id + 1 else endMark := by
  rw [getD_eq_getElem?_getD, getElem?_successors (Nat.sub_le ..), getElem?_replicate]
  by_cases inner : id + 1 < size
  · rw [if_pos inner, if_pos (by omega), Option.getD_some]
  · rw [if_neg inner, if_neg (by omega)]
    split <;> rfl

/-- In a new queue every descriptor is free. -/
theorem owned_new {size : Nat} (positive : 1 ≤ size) :
    ∃ queue, new size = .ok queue ∧ queue.broken = false ∧ Owned size [] queue := by
  refine ⟨_, if_neg (by omega), rfl, ?_⟩
  generalize made : Ownership.mk (successors (size - 1) size) (List.replicate size 0) 0 size false =
    queue
  have link : ∀ id, queue.link id = if id + 1 < size then id + 1 else endMark := by
    subst made
    exact getD_successors size
  have steps : ∀ steps < size, queue.link^[steps] 0 = steps := by
    intro steps
    induction steps with
    | zero => exact fun _ => rfl
    | succ steps ih =>
      intro before
      rw [Function.iterate_succ_apply', ih (by omega), link, if_pos before]
  obtain ⟨last, rfl⟩ := Nat.exists_eq_add_of_le' positive
  have free : queue.freeList = List.range (last + 1) := by
    subst made
    rw [freeList, ← range_map_iterate]
    refine (map_congr_left fun id member => ?_).trans (map_id _)
    exact steps id (mem_range.mp member)
  refine ⟨⟨?_, ?_, ?_⟩, ?_, ?_, ?_, ?_⟩
  · subst made
    rw [Function.iterate_succ_apply', steps last (Nat.lt_succ_self _), link, if_neg (by omega)]
  · exact forall_mem_nil _
  · rw [free, flatMap_nil, append_nil]
  · subst made
    exact length_successors ..
  · subst made
    exact length_replicate
  · exact nodup_nil
  · intro id count nonzero
    subst made
    simp [getElem?_replicate, Ne.symm nonzero]

end Ownership

/-! ### Whole runs -/

section Runs

open Virtio.Ownership

variable {size : Nat} {held : List (Nat × Nat)} {queue : Ownership}

/-- What is known of a call in a queue with its chains handed out: the records it leaves
hold the chains that follow from its result, a completion that is answered was of a chain
handed out, and a malformed completion stops the queue for good. -/
structure Request.Served (size : Nat) (held : List (Nat × Nat)) (queue : Ownership)
    (request : Request) (result : Option Nat) (after : Ownership) : Prop where
  owned : Owned size (Event.holds held (request, result)) after
  answered : ∀ id count expected, request = .complete id count expected → ∀ head,
    result = some head → head = id ∧ (head, count) ∈ held
  refused : request.Malformed held → result = none ∧ after.broken = true
  stopped : queue.broken = true → result = none ∧ after.broken = true

theorem Request.served (owned : Owned size held queue) (bounded : size < wordLimit)
    (request : Request) :
    ∃ result after, request.run queue = (.ok result, after) ∧
      request.Served size held queue result after := by
  cases request with
  | reserve count =>
    by_cases closed : queue.broken = true ∨ count = 0 ∨ queue.free < count
    · refine ⟨none, queue, reserve_eq_none closed, owned, ?_, ?_, fun stopped => ⟨rfl, stopped⟩⟩
      · exact nofun
      · exact nofun
    · obtain ⟨sound, positive, enough⟩ := by simpa only [not_or, not_lt] using closed
      refine ⟨_, _, reserve_eq owned bounded (Bool.eq_false_of_not_eq_true sound) positive enough,
        owned.reserve positive enough, nofun, nofun, fun stopped => absurd stopped sound⟩
  | complete id count expected =>
    by_cases stopped : queue.broken = true
    · exact ⟨none, queue, complete_eq_none stopped, owned, nofun, fun _ => ⟨rfl, stopped⟩,
        fun _ => ⟨rfl, stopped⟩⟩
    have sound := Bool.eq_false_of_not_eq_true stopped
    by_cases malformed : Request.Malformed held (.complete id count expected)
    · refine ⟨none, _, complete_malformed owned sound malformed, ?_, nofun, fun _ => ⟨rfl, rfl⟩,
        fun _ => ⟨rfl, rfl⟩⟩
      exact ⟨⟨owned.freeEnds, owned.chainEnds, owned.descriptors⟩, owned.nextLength,
        owned.pendingLength, owned.heads, owned.counts⟩
    · obtain ⟨out, agrees⟩ := not_or.mp malformed
      rw [not_not] at out
      have expects : ∀ head, expected = some head → head = id := fun head given =>
        not_not.mp fun differs => agrees ⟨head, given, differs⟩
      refine ⟨_, _, complete_eq owned bounded sound out expects, owned.complete out, ?_,
        fun bad => absurd bad malformed, fun bad => absurd bad stopped⟩
      intro _ _ _ same head given
      cases same
      cases given
      exact ⟨rfl, out⟩

/-- What is known of an event of a history, given the chains handed out before it: a
completion is answered only with a head handed out with the length given, and after a
malformed completion nothing is answered any more. -/
def Event.Lawful (held : List (Nat × Nat)) (event : Event) (later : List Event) : Prop :=
  (∀ id count expected head, event = (.complete id count expected, some head) →
      head = id ∧ (head, count) ∈ held) ∧
    (event.1.Malformed held → event.2 = none ∧ ∀ next ∈ later, next.2 = none)

/-- Calls one after another do not panic, keep the partition, and answer lawfully. -/
theorem runAll_lawful (owned : Owned size held queue) (bounded : size < wordLimit)
    (requests : List Request) :
    ∃ events after, runAll requests queue = (.ok events, after) ∧
      events.map Prod.fst = requests ∧ Owned size (events.foldl Event.holds held) after ∧
      (queue.broken = true → ∀ event ∈ events, event.2 = none) ∧
      ∀ earlier event later, events = earlier ++ event :: later →
        Event.Lawful (earlier.foldl Event.holds held) event later := by
  induction requests generalizing held queue with
  | nil =>
    refine ⟨[], queue, rfl, rfl, owned, fun _ event member => absurd member not_mem_nil, ?_⟩
    intro earlier event later split
    cases earlier <;> cases split
  | cons request rest ih =>
    obtain ⟨result, _, first, served⟩ := request.served owned bounded
    obtain ⟨events, after, run, named, ownedAfter, quiet, lawful⟩ :=
      ih served.owned
    refine ⟨(request, result) :: events, after, ?_, by rw [map_cons, named], ownedAfter, ?_, ?_⟩
    · rw [runAll, Program.bind_of_ok first, Program.bind_of_ok run, Program.run_pure]
    · intro stopped event member
      obtain ⟨silent, still⟩ := served.stopped stopped
      rcases mem_cons.mp member with rfl | later
      · exact silent
      · exact quiet still event later
    · intro earlier event later split
      cases earlier with
      | nil =>
        cases split
        refine ⟨?_, fun malformed => ?_⟩
        · rintro id count expected head same
          cases same
          exact served.answered id count expected rfl head rfl
        · obtain ⟨silent, still⟩ := served.refused malformed
          exact ⟨silent, quiet still⟩
      | cons head tail =>
        cases split
        exact lawful tail event later rfl

/-- Whatever sequence of calls an adversary makes of a new queue: none of them indexes out of
bounds, the free list and the chains reserved and not completed since partition the
descriptors, completions are answered only for such chains, and the first malformed one
stops the queue. -/
theorem descriptors_partitioned (size : Nat) (positive : 1 ≤ size) (bounded : size ≤ 65535)
    (requests : List Request) :
    ∃ queue events after, Ownership.new size = .ok queue ∧
      runAll requests queue = (.ok events, after) ∧ events.map Prod.fst = requests ∧
      Partitioned size (outstanding events) after ∧
      ∀ earlier event later, events = earlier ++ event :: later →
        Event.Lawful (outstanding earlier) event later := by
  obtain ⟨queue, made, _, owned⟩ := owned_new positive
  obtain ⟨events, after, run, named, ownedAfter, _, lawful⟩ :=
    runAll_lawful owned (Nat.lt_succ_of_le bounded) requests
  exact ⟨queue, events, after, made, run, named, ownedAfter.toPartitioned, lawful⟩

/-- A queue of four descriptors: two chains, one completion, and one of a device that lies. -/
theorem descriptors_partitioned_four :
    (1 ≤ 4 ∧ 4 ≤ 65535) ∧ ∃ queue events after, Ownership.new 4 = .ok queue ∧
      runAll [.reserve 2, .reserve 1, .complete 0 2 none, .complete 0 2 none, .reserve 1] queue =
        (.ok events, after) ∧ events.map Prod.fst =
          [.reserve 2, .reserve 1, .complete 0 2 none, .complete 0 2 none, .reserve 1] ∧
      Partitioned 4 (outstanding events) after ∧
      ∀ earlier event later, events = earlier ++ event :: later →
        Event.Lawful (outstanding earlier) event later :=
  ⟨by decide, descriptors_partitioned 4 (by decide) (by decide) _⟩

end Runs

end Mmurtl.Virtio

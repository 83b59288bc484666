/-
This file proves that every accepted request is answered exactly once, by the task
it was sent to.

A reply slot is written by a reply or by an exit that still owes an answer. While a
send is under way its sender stays at its place in the table, nobody but the
receiver can write its slot, and the slot holds what was written; a second write is
impossible because the first one ends the wait that a write needs.
-/

import Mmurtl.Scheduler.Waiting

namespace Mmurtl.Scheduler

open Transition List Function

variable {scheduler : Scheduler} {cpu : CpuIndex} {me other : Nat} {caller : TaskControlBlock}
  {pc : Pc} {action : Action} {next posted last : System} {msg : Rqb}
  {moves : List (Move System Action)}

/-! ### Writes of a reply slot -/

/-- The reply slot of the task with an identifier. -/
def replySlot (scheduler : Scheduler) (id : Nat) : Option Rqb :=
  (scheduler.tasks.find? fun task => task.id == id).bind TaskControlBlock.reply

/-- What a move writes into the reply slot of a task: the message of a reply that is accepted,
or the abort notice of an exit that still owes the task an answer. -/
def replyWrite (target : Nat) (move : Move System Action) : Option Rqb :=
  match move.label with
  | .reply cpu sender msg =>
      match move.before.scheduler.postReply cpu sender msg with
      | some (.ok _, _) =>
          if sender = target then
            (move.before.scheduler.currentId cpu).map fun replier => msg.address replier sender
          else none
      | _ => none
  | .exit cpu => do
      let me ← move.before.scheduler.currentIdx cpu
      let exiting ← move.before.scheduler.tasks[me]?
      let waiter ← (move.before.scheduler.tasks.modify me exit).find? fun task =>
        task.id == target
      if owed exiting.id waiter then some (Rqb.abortNotice exiting.id target) else none
  | _ => none

/-- Everything a run writes into the reply slot of a task, in order. -/
def replyWrites (target : Nat) (moves : List (Move System Action)) : List Rqb :=
  moves.filterMap (replyWrite target)

/-- The task that takes an action. -/
def issuer (system : System) (action : Action) : Option Nat :=
  action.cpu.bind system.scheduler.currentId

/-- A move in which `send_rqb` returns in a task. -/
def SendReturns (sender : Nat) (move : Move System Action) : Prop :=
  issuer move.before move.label = some sender ∧
    ∃ status rqb, move.before.act move.label = some (.sendReturned status rqb, move.after)

variable {task : TaskControlBlock}

theorem find_of_unique {tasks : List TaskControlBlock} {index : Nat}
    (found : tasks[index]? = some task)
    (unique : ∀ other candidate, tasks[other]? = some candidate →
      candidate.id = task.id → other = index) :
    (tasks.find? fun other => other.id == task.id) = some task := by
  cases result : tasks.find? fun other => other.id == task.id with
  | none =>
    have different := find?_eq_none.mp result task (mem_of_getElem? found)
    simp at different
  | some candidate =>
    have same : candidate.id = task.id := by simpa using find?_some result
    obtain ⟨position, place⟩ := getElem?_of_mem (mem_of_find?_eq_some result)
    rw [unique position candidate place same, found] at place
    exact place.symm

theorem currentId_of_current (current : scheduler.Current cpu me task) :
    scheduler.currentId cpu = some task.id := by
  simp [currentId, current.1, current.2]

/-! ### A send under way -/

/-- A task of the table is inside a send to a receiver. -/
structure Pending (system : System) (sender receiver index : Nat) (task : TaskControlBlock) :
    Prop where
  found : system.scheduler.tasks[index]? = some task
  id : task.id = sender
  sends : (system.pc sender).sendingTo = some receiver

section Pending

variable {system : System} {sender receiver index : Nat}

section

variable (pending : Pending system sender receiver index task)
include pending

/-- The caller of a function that is not a send is another task. -/
theorem Pending.not_caller (calls : Calls system cpu me caller pc) (quiet : pc.sendingTo = none) :
    caller.id ≠ sender ∧ me ≠ index := by
  have different : caller.id ≠ sender := by
    intro same
    have sends := pending.sends
    rw [← same, calls.at_pc, quiet] at sends
    cases sends
  exact ⟨different, places_ne calls.current.2 pending.found fun same =>
    different (same ▸ pending.id)⟩

/-- A step of another task leaves a sender where it is. -/
theorem Pending.elsewhere {caller : Nat} {moved : Pc} {new : TaskControlBlock}
    (different : caller ≠ sender) (found : scheduler.tasks[index]? = some new)
    (same : new.id = task.id) :
    Pending (system.goto scheduler caller moved) sender receiver index new := by
  refine ⟨found, by rw [same, pending.id], ?_⟩
  show (Function.update system.pc caller moved sender).sendingTo = some receiver
  rw [update_of_ne (Ne.symm different)]
  exact pending.sends

/-- A step of another task that changes only that task leaves a sender as it is. -/
theorem Pending.apart (calls : Calls system cpu me caller pc) (different : caller.id ≠ sender)
    (change : TaskControlBlock → TaskControlBlock) (moved : Pc) :
    Pending (system.goto (system.scheduler.modifyTask me change) caller.id moved) sender receiver
      index task := by
  refine pending.elsewhere different ?_ rfl
  rw [modifyTask_task, if_neg, pending.found]
  exact places_ne calls.current.2 pending.found fun same => different (same ▸ pending.id)

section

variable (consistent : Consistent system)
include consistent

theorem Pending.waitFor (waits : task.state = .waitingReply) :
    task.waitFor = receiver ∧ task.reply = none := by
  have coherent := consistent.coherent index task pending.found
  rw [pending.id] at coherent
  obtain ⟨sends, _, _, empty⟩ := coherent.waiting waits
  rw [pending.sends] at sends
  exact ⟨(Option.some.inj sends).symm, empty⟩

theorem Pending.at_index {found : TaskControlBlock}
    (place : system.scheduler.tasks[other]? = some found) (same : found.id = sender) :
    other = index ∧ found = task := by
  have index_eq := consistent.unique other index found task place pending.found
    (by rw [same, pending.id])
  subst index_eq
  exact ⟨rfl, Option.some.inj (place.symm.trans pending.found)⟩

/-- A write of the slot of a sender comes from its receiver, and finds the slot empty. -/
theorem Pending.source {message : Rqb}
    (written : replyWrite sender ⟨system, action, next⟩ = some message) : task.reply = none ∧
      ((∃ cpu data, action = .reply cpu sender data ∧
          system.scheduler.currentId cpu = some receiver ∧ message = data.address receiver sender) ∨
        ∃ cpu, action = .exit cpu ∧ system.scheduler.currentId cpu = some receiver ∧
          message = Rqb.abortNotice receiver sender) := by
  cases action with
  | reply cpu target msg =>
    simp only [replyWrite] at written
    split at written
    · rename_i kick after posted
      split at written
      · rename_i same
        subst same
        rcases postReply_cases posted with ⟨_, never, _⟩ |
          ⟨me, _, other, waiter, current, place, waiterId, waiting, waitFor, empty, _, _⟩
        · cases never
        · obtain ⟨rfl, rfl⟩ := pending.at_index consistent place waiterId
          have receiver_eq := (pending.waitFor consistent waiting).1
          rw [waitFor] at receiver_eq
          have issued := currentId_of_current current
          rw [receiver_eq] at issued
          rw [issued] at written
          exact ⟨empty, Or.inl ⟨cpu, msg, rfl, issued, (Option.some.inj written).symm⟩⟩
      · cases written
    · cases written
  | exit cpu =>
    simp only [replyWrite, Option.bind_eq_bind, Option.bind_eq_some_iff] at written
    obtain ⟨me, current, _, here, waiter, found, written⟩ := written
    split at written
    · rename_i owes
      simp only [owed, Bool.and_eq_true, beq_iff_eq, Option.isNone_iff_eq_none] at owes
      have waiterId : waiter.id = sender := by simpa using find?_some found
      obtain ⟨other, place⟩ := getElem?_of_mem (mem_of_find?_eq_some found)
      rw [getElem?_modify] at place
      by_cases same : me = other
      · subst same
        simp only [here, if_true] at place
        cases place
        cases owes.1.1
      · have place : system.scheduler.tasks[other]? = some waiter := by simpa [same] using place
        obtain ⟨rfl, rfl⟩ := pending.at_index consistent place waiterId
        have receiver_eq := (pending.waitFor consistent owes.1.1).1
        rw [owes.1.2] at receiver_eq
        have issued := currentId_of_current ⟨current, here⟩
        rw [receiver_eq] at issued written
        exact ⟨owes.2, Or.inr ⟨cpu, rfl, issued, (Option.some.inj written).symm⟩⟩
    · cases written
  | _ => cases written

/-- A context switch leaves a sender in its send. -/
theorem Pending.onTick {sp : UInt64} {timer ipiAvailable : Bool} {outcome : TickOutcome}
    {pc : Nat → Pc} (ticked : system.scheduler.onTick cpu sp timer ipiAvailable = some outcome)
    (sends : (pc sender).sendingTo = some receiver) :
    ∃ new, Pending { system with scheduler := outcome.scheduler, pc := pc } sender receiver index
      new ∧ new.reply = task.reply := by
  rcases consistent.exclusive.switched ticked with ⟨_, same⟩ | ⟨_, choice, _, _, _, _, _, _, _, _,
    table, _⟩
  · refine ⟨task, ⟨?_, pending.id, sends⟩, rfl⟩
    rw [same]
    exact pending.found
  · obtain ⟨id, _, reply, _⟩ := setAside_fields system.scheduler cpu sp timer index task
    refine ⟨if index = choice then
      Scheduler.resume cpu (system.scheduler.setAside cpu sp timer index task)
      else system.scheduler.setAside cpu sp timer index task, ⟨?_, ?_, sends⟩, ?_⟩
    · rw [table, pending.found]
      rfl
    · rw [← pending.id, ← id]
      split <;> rfl
    · rw [← reply]
      split <;> rfl

/-- A reply to anyone leaves a sender in its send, and its slot with what was written. -/
theorem Pending.replied {target : Nat} {replier : TaskControlBlock}
    (calls : Calls system cpu me replier .outside) {waiter : TaskControlBlock}
    (place : system.scheduler.tasks[other]? = some waiter) (waiterId : waiter.id = target)
    (waiting : waiter.state = .waitingReply)
    (posted : ∃ kick next, system.scheduler.postReply cpu target msg = some (.ok kick, next))
    (next : System) : ∃ new, Pending { system with
        scheduler := system.scheduler.modifyTask other (answer (msg.address replier.id target)) }
        sender receiver index new ∧
      new.reply = (replyWrite sender ⟨system, .reply cpu target msg, next⟩).or task.reply := by
  obtain ⟨_, _, posted⟩ := posted
  have issued := currentId_of_current calls.current
  by_cases same : target = sender
  · subst same
    obtain ⟨rfl, rfl⟩ := pending.at_index consistent place waiterId
    refine ⟨answer (msg.address replier.id target) waiter, ⟨?_, ?_, pending.sends⟩, ?_⟩
    · rw [modifyTask_task, if_pos rfl, place]
      rfl
    · rw [answer_eq _ _ waiting]
      exact waiterId
    · rw [answer_eq _ _ waiting]
      simp [replyWrite, posted, issued]
  · refine ⟨task, ⟨?_, pending.id, pending.sends⟩, ?_⟩
    · rw [modifyTask_task, if_neg, pending.found]
      exact places_ne place pending.found fun equal =>
        same (waiterId.symm.trans (equal ▸ pending.id))
    · simp [replyWrite, posted, same]

/-- An exit leaves a sender in its send, and its slot with what was written. -/
theorem Pending.exit (calls : Calls system cpu me caller .outside) (next : System) :
    ∃ new, Pending (system.goto { system.scheduler with
        tasks := (system.scheduler.tasks.modify me Scheduler.exit).map (abort caller.id) }
        caller.id .exiting) sender receiver index new ∧
      new.reply = (replyWrite sender ⟨system, .exit cpu, next⟩).or task.reply := by
  obtain ⟨different, apart⟩ := pending.not_caller calls rfl
  have kept : (system.scheduler.tasks.modify me Scheduler.exit)[index]? = some task := by
    simp [apart, pending.found]
  have found : ((system.scheduler.tasks.modify me Scheduler.exit).find? fun other =>
      other.id == task.id) = some task := by
    refine find_of_unique kept fun other candidate place same => ?_
    rw [getElem?_modify] at place
    obtain ⟨old, oldFound, rfl⟩ := Option.map_eq_some_iff.mp place
    refine consistent.unique other index old task oldFound pending.found ?_
    rw [← same]
    split <;> rfl
  have written : replyWrite sender ⟨system, .exit cpu, next⟩ =
      if owed caller.id task then some (Rqb.abortNotice caller.id sender) else none := by
    rw [pending.id] at found
    simp [replyWrite, currentIdx, calls.current.1, calls.current.2, found]
  refine ⟨abort caller.id task, pending.elsewhere different ?_ (abort_id _ _), ?_⟩
  · rw [getElem?_map, kept]
    rfl
  · rw [written]
    unfold abort
    split
    · rename_i owes
      rw [answer_eq _ _ (by simp_all [owed]), pending.id]
      rfl
    · rfl

/-- One turn: unless it is the return of the send, the sender stays in its send and its slot
holds what the turn wrote, or what it held before. -/
theorem Pending.turn {outcome : Outcome} (turn : Turn system action outcome next)
    (stays : ¬(issuer system action = some sender ∧
      ∃ status rqb, outcome = .sendReturned status rqb)) :
    ∃ new, Pending next sender receiver index new ∧
      new.reply = (replyWrite sender ⟨system, action, next⟩).or task.reply := by
  cases turn with
  | interrupt ticked => exact pending.onTick consistent ticked pending.sends
  | @yield cpu sp ipiAvailable me caller resumed ticking current resumes ticked =>
    refine pending.onTick consistent ticked ?_
    by_cases same : caller.id = sender
    · rw [same] at resumes ⊢
      rw [update_self, Pc.afterYield_sendingTo resumes]
      exact pending.sends
    · rw [update_of_ne (Ne.symm same)]
      exact pending.sends
  | createTask _ _ => exact ⟨task, ⟨pending.found, pending.id, pending.sends⟩, rfl⟩
  | @addTask added built =>
    obtain ⟨slot, _, free, elsewhere⟩ := addTask_task system.scheduler added
    refine ⟨task, ⟨?_, pending.id, pending.sends⟩, rfl⟩
    rw [elsewhere index, pending.found]
    rintro rfl
    have exited := (consistent.coherent _ task pending.found).exited.mp (free task pending.found).1
    have sends := pending.sends
    rw [← pending.id, exited] at sends
    cases sends
  | collectExited =>
    refine ⟨collected system.scheduler index task, ⟨?_, ?_, pending.sends⟩, ?_⟩
    · rw [collectExited_task, pending.found]
      rfl
    · rw [← pending.id]
      unfold collected
      split <;> rfl
    · unfold collected
      split <;> rfl
  | @accepted cpu other msg me caller place target calls _ found _ _ =>
    obtain ⟨different, apart⟩ := pending.not_caller calls rfl
    refine ⟨if place = index then deliver (msg.address caller.id other) task else task,
      pending.elsewhere different ?_ ?_, ?_⟩
    · rw [modifyTask_task, if_neg apart, modifyTask_task, pending.found]
      split <;> rfl
    · split
      · exact (rouse_fields .waitingRqb (enqueue (msg.address caller.id other) task)).1
      · rfl
    · split
      · exact (rouse_fields .waitingRqb (enqueue (msg.address caller.id other) task)).2.2.1
      · rfl
  | refused _ _ => exact ⟨task, pending, rfl⟩
  | @returned cpu me caller other reply calls replied =>
    refine ⟨task, pending.apart calls (fun same => stays ⟨?_, _, _, rfl⟩) _ _, rfl⟩
    rw [← same]
    exact currentId_of_current calls.current
  | spurious calls empty => exact absurd empty (consistent.caller_replied calls)
  | received calls start _ =>
    refine ⟨task, pending.apart calls (pending.not_caller calls ?_).1 _ _, rfl⟩
    rcases start with rfl | rfl <;> rfl
  | blocked calls start _ =>
    refine ⟨task, pending.apart calls (pending.not_caller calls ?_).1 _ _, rfl⟩
    rcases start with rfl | rfl <;> rfl
  | tried calls _ => exact ⟨task, pending.apart calls (pending.not_caller calls rfl).1 _ _, rfl⟩
  | triedEmpty _ => exact ⟨task, pending, rfl⟩
  | replied calls place waiterId waiting _ _ posted =>
    exact pending.replied consistent calls place waiterId waiting posted _
  | unreplied _ refused => exact ⟨task, pending, by simp [replyWrite, refused]⟩
  | sleep calls =>
    exact ⟨task, pending.elsewhere (pending.not_caller calls rfl).1 pending.found rfl, rfl⟩
  | sleepTest calls _ =>
    exact ⟨task, pending.elsewhere (pending.not_caller calls rfl).1 pending.found rfl, rfl⟩
  | sleepCall calls =>
    exact ⟨task, pending.apart calls (pending.not_caller calls rfl).1 _ _, rfl⟩
  | exit calls => exact pending.exit consistent calls _

/-- A send returns with what its slot holds. -/
theorem Pending.returns {status : RqbStatus} {rqb : Rqb}
    (issued : issuer system action = some sender)
    (acted : system.act action = some (.sendReturned status rqb, next)) :
    task.reply = some rqb ∧ status = RqbStatus.ofCode rqb.status := by
  have same : ∀ {cpu : CpuIndex} {me : Nat} {caller : TaskControlBlock} {pc : Pc},
      action.cpu = some cpu → Calls system cpu me caller pc → caller.id = sender := by
    intro cpu me caller _ here calls
    rw [issuer, here] at issued
    exact Option.some.inj ((currentId_of_current calls.current).symm.trans issued)
  generalize result : Outcome.sendReturned status rqb = outcome at acted
  cases System.turn_of_act acted with
  | refused calls _ => exact absurd (same rfl calls) (pending.not_caller calls rfl).1
  | @returned cpu me caller other reply calls replied =>
    obtain ⟨rfl, rfl⟩ := pending.at_index consistent calls.current.2 (same rfl calls)
    cases result
    exact ⟨replied, rfl⟩
  | _ => cases result

end

end

end Pending

/-! ### Whole runs -/

/-- Along a run in which the send does not return, the sender stays in its send, its slot holds
the first thing written into it, and nothing more is written. -/
theorem Pending.run {sender receiver index : Nat} (reachable : Reachable kernel posted)
    (pending : Pending posted sender receiver index task) (empty : task.reply = none)
    (run : Run kernel posted moves last) (stays : ∀ move ∈ moves, ¬SendReturns sender move) :
    (∃ new, Pending last sender receiver index new ∧ new.reply = (replyWrites sender moves).head?) ∧
      (replyWrites sender moves).length ≤ 1 ∧
      ∀ move ∈ moves, ∃ now, Pending move.before sender receiver index now := by
  induction run with
  | nil => exact ⟨⟨task, pending, empty⟩, Nat.zero_le 1, forall_mem_nil _⟩
  | @snoc middle next earlier action run step ih =>
    obtain ⟨⟨now, here, slot⟩, once, before⟩ := ih fun move member =>
      stays move (mem_append_left _ member)
    have consistent := consistent_of_reachable (reachable.run run)
    obtain ⟨_, outcome, acted⟩ := step
    have unreturned : ¬(issuer middle action = some sender ∧
        ∃ status rqb, outcome = .sendReturned status rqb) := by
      rintro ⟨issued, status, rqb, rfl⟩
      exact stays ⟨middle, action, next⟩ (by simp) ⟨issued, status, rqb, acted⟩
    obtain ⟨new, after, reply⟩ := here.turn consistent (System.turn_of_act acted) unreturned
    have writes : replyWrites sender (earlier ++ [⟨middle, action, next⟩]) =
        replyWrites sender earlier ++
          (replyWrite sender ⟨middle, action, next⟩).toList := filterMap_concat ..
    refine ⟨⟨new, after, ?_⟩, ?_,
      forall_mem_append.mpr ⟨before, forall_mem_singleton.mpr ⟨now, here⟩⟩⟩
    · rw [reply, slot, writes]
      cases written : replyWrite sender ⟨middle, action, next⟩ with
      | none => simp
      | some message =>
        have unwritten := (here.source consistent written).1
        rw [slot, head?_eq_none_iff] at unwritten
        simp [unwritten]
    · rw [writes]
      cases written : replyWrite sender ⟨middle, action, next⟩ with
      | none => simpa using once
      | some message =>
        have unwritten := (here.source consistent written).1
        rw [slot, head?_eq_none_iff] at unwritten
        simp [unwritten]

/-- From an accepted request on, as long as the send has not returned: its sender's slot is
written at most once and holds what was written; only the receiver writes it, by a reply whose
data it chose or by its exit; every other reply to the sender is an error that changes nothing;
and the send returns only with the one message that was written. -/
structure AnsweredOnce (sender receiver : Nat) (moves : List (Move System Action))
    (last : System) : Prop where
  once : (replyWrites sender moves).length ≤ 1
  slot : replySlot last.scheduler sender = (replyWrites sender moves).head?
  source : ∀ move ∈ moves, ∀ message, replyWrite sender move = some message →
    (∃ cpu data, move.label = .reply cpu sender data ∧
        move.before.scheduler.currentId cpu = some receiver ∧
        message = { data with senderId := receiver, receiverId := sender }) ∨
      ∃ cpu, move.label = .exit cpu ∧ move.before.scheduler.currentId cpu = some receiver ∧
        message = Rqb.abortNotice receiver sender ∧
        RqbStatus.ofCode message.status = .aborted
  others : ∀ move ∈ moves, ∀ cpu data, move.label = .reply cpu sender data →
    replyWrite sender move = none →
    ∃ status, move.before.scheduler.postReply cpu sender data =
        some (.error status, move.before.scheduler) ∧ move.after = move.before
  returns : ∀ action status rqb next, issuer last action = some sender →
    last.act action = some (.sendReturned status rqb, next) →
    replyWrites sender moves = [rqb] ∧ status = RqbStatus.ofCode rqb.status

/-- Every accepted request is answered exactly once, by the task it was sent to. -/
theorem answeredOnce_of_run {system posted last : System} {cpu : CpuIndex}
    {sender receiver : Nat} {msg : Rqb} {moves : List (Move System Action)}
    (reachable : Reachable kernel system)
    (issued : system.scheduler.currentId cpu = some sender)
    (accepted : ∃ kick after,
      system.scheduler.postRequest cpu receiver msg = some (.ok kick, after))
    (sent : kernel.step system (.send cpu receiver msg) posted)
    (run : Run kernel posted moves last) (stays : ∀ move ∈ moves, ¬SendReturns sender move) :
    AnsweredOnce sender receiver moves last := by
  have start : Reachable kernel posted := .step reachable _ sent
  obtain ⟨_, outcome, acted⟩ := sent
  obtain ⟨kick, after, accepted⟩ := accepted
  have opened : ∃ me task, Pending posted sender receiver me task ∧ task.reply = none := by
    cases System.turn_of_act acted with
    | @accepted _ _ _ me caller index target calls different found targetId _ =>
      have same := Option.some.inj ((currentId_of_current calls.current).symm.trans issued)
      refine ⟨me, block receiver caller, ⟨?_, same, ?_⟩, rfl⟩
      · show ((system.scheduler.modifyTask index _).modifyTask me (block receiver)).tasks[me]? = _
        rw [modifyTask_task, if_pos rfl, modifyTask_task, if_neg, calls.current.2]
        · rfl
        · exact places_ne found calls.current.2 fun same => different (same ▸ targetId.symm)
      · show (Function.update system.pc caller.id (.sendYield receiver) sender).sendingTo = _
        rw [same, Function.update_self]
        rfl
    | refused _ refused =>
      rw [refused] at accepted
      cases accepted
  obtain ⟨me, task, pending, empty⟩ := opened
  obtain ⟨⟨new, waits, slot⟩, once, before⟩ := pending.run start empty run stays
  have final := consistent_of_reachable (start.run run)
  refine ⟨once, ?_, ?_, ?_, ?_⟩
  · have found := find_of_unique waits.found fun other candidate place same =>
      final.unique other me candidate new place waits.found same
    rw [waits.id] at found
    rw [← slot, replySlot, found]
    rfl
  · intro move member _ written
    obtain ⟨_, here⟩ := before move member
    have consistent := consistent_of_reachable (run.move_of_mem start member).1
    obtain ⟨_, ⟨cpu, data, label, issued, rfl⟩ | ⟨cpu, label, issued, rfl⟩⟩ :=
      here.source consistent written
    · exact Or.inl ⟨cpu, data, label, issued, rfl⟩
    · exact Or.inr ⟨cpu, label, issued, rfl, rfl⟩
  · intro move member _ _ label unwritten
    obtain ⟨_, _, _, acted⟩ := run.move_of_mem start member
    rw [label] at acted
    generalize ending : move.after = after at acted ⊢
    cases System.turn_of_act acted with
    | replied calls _ _ _ _ _ posted =>
      obtain ⟨_, _, posted⟩ := posted
      simp [replyWrite, label, posted, currentId_of_current calls.current] at unwritten
    | unreplied _ refused => exact ⟨_, refused, rfl⟩
  · intro _ _ _ _ issued acted
    obtain ⟨written, status_eq⟩ := waits.returns final issued acted
    refine ⟨?_, status_eq⟩
    rw [slot] at written
    obtain ⟨_, writes⟩ := List.head?_eq_some_iff.mp written
    rw [writes] at once ⊢
    rw [List.eq_nil_of_length_eq_zero (Nat.le_zero.mp (Nat.le_of_succ_le_succ once))]

/-- Task 3 sends to task 4, which receives the request and replies. -/
def requestMoves : List (Move System Action) :=
  let posted := twoTasks.after (.send 0 4 Rqb.new)
  let taken := posted.after (.receive 1)
  [⟨posted, .receive 1, taken⟩,
    ⟨taken, .reply 1 3 Rqb.new, taken.after (.reply 1 3 Rqb.new)⟩]

theorem answeredOnce_requestMoves :
    replyWrites 3 requestMoves = [Rqb.new.address 4 3] ∧
      AnsweredOnce 3 4 requestMoves
        (((twoTasks.after (.send 0 4 Rqb.new)).after (.receive 1)).after
          (.reply 1 3 Rqb.new)) := by
  have run := Run.snoc (Run.snoc (.nil (twoTasks.after (.send 0 4 Rqb.new)))
      (step_after (.receive 1) (by simp) rfl))
    (step_after (.reply 1 3 Rqb.new) (by simp) rfl)
  refine ⟨rfl, answeredOnce_of_run twoTasks_reachable rfl ⟨_, _, rfl⟩
    (step_after (.send 0 4 Rqb.new) (by simp) rfl) run ?_⟩
  rintro move member ⟨issued, _⟩
  have by_server : issuer move.before move.label = some 4 := by
    rcases List.mem_cons.mp member with rfl | member
    · rfl
    · rw [List.mem_singleton.mp member]
      rfl
  rw [by_server] at issued
  cases issued

end Mmurtl.Scheduler

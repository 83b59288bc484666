/-
This file asks whether a queued request always has its sender still waiting for it, so that
the reply to a request can only answer that request.

Nothing in a message ties a reply to a request. A task stops waiting for a reply only when
its receiver replies or exits. An exit empties the inbox, but a reply that the receiver
gives before it takes the request leaves the request behind. The pairing therefore holds
along a run exactly as long as nobody replies to a sender whose request is still queued.
-/

import Mmurtl.Scheduler.Delivery

namespace Mmurtl.Scheduler

open Transition List

variable {cpu : CpuIndex} {me receiver : Nat} {task sender : TaskControlBlock} {msg : Rqb}

/-! ### Paired requests -/

/-- A live task waits for the reply of a receiver, with an empty reply slot. -/
def Awaits (scheduler : Scheduler) (sender receiver : Nat) : Prop :=
  ∃ (index : Nat) (task : TaskControlBlock), scheduler.tasks[index]? = some task ∧
    task.id = sender ∧ task.state = .waitingReply ∧ task.waitFor = receiver ∧ task.reply = none

/-- Every queued request has its sender waiting for it, and is its only one in the inbox. -/
def Paired (scheduler : Scheduler) : Prop :=
  ∀ (index : Nat) task, scheduler.tasks[index]? = some task →
    (task.inbox.map Rqb.senderId).Nodup ∧
      ∀ msg ∈ task.inbox, Awaits scheduler msg.senderId task.id

/-- A reply that is accepted while a request of the same sender is still queued. -/
def Premature (move : Move System Action) : Prop :=
  ∃ cpu sender msg, move.label = .reply cpu sender msg ∧
    (∃ kick next, move.before.scheduler.postReply cpu sender msg = some (.ok kick, next)) ∧
    ∃ me replier, move.before.scheduler.Current cpu me replier ∧
      ∃ queued ∈ replier.inbox, queued.senderId = sender

/-! ### How a task stops waiting -/

/-- A task waits as it did. -/
structure Waits (old new : TaskControlBlock) : Prop where
  id : new.id = old.id
  state : new.state = .waitingReply
  waitFor : new.waitFor = old.waitFor
  reply : new.reply = old.reply

/-- The action that ends a task's wait: a reply of the task it waits for, or that task's
exit. -/
inductive Ends (system : System) (waiter : TaskControlBlock) : Action → Prop where
  | replied {cpu msg me replier} (current : system.scheduler.Current cpu me replier)
      (owner : replier.id = waiter.waitFor)
      (accepted : ∃ kick next,
        system.scheduler.postReply cpu waiter.id msg = some (.ok kick, next)) :
      Ends system waiter (.reply cpu waiter.id msg)
  | exited {cpu me leaver} (current : system.scheduler.Current cpu me leaver)
      (owner : leaver.id = waiter.waitFor) : Ends system waiter (.exit cpu)

section Waits

variable {system next : System} {index : Nat} {waiter : TaskControlBlock}

/-- The caller of an interface function does not wait for a reply. -/
theorem Consistent.caller_awake (consistent : Consistent system) {pc : Pc}
    (calls : Calls system cpu me task pc) (awake : pc.sendingTo = none ∨ pc.checks = true) :
    task.state ≠ .waitingReply := by
  have coherent := consistent.caller calls
  rcases awake with quiet | checks
  · exact coherent.not_sending quiet
  · have onCpu := consistent.exclusive.onCpu_of_current calls.current
    rw [coherent.checking checks (by simp [onCpu])]
    exact nofun

theorem Waits.refl (waiting : task.state = .waitingReply) :
    Waits task task := ⟨rfl, waiting, rfl, rfl⟩

/-- Changing a task that does not wait leaves the waiting ones alone. -/
theorem waits_modifyTask {scheduler : Scheduler} (here : scheduler.tasks[me]? = some task)
    (awake : task.state ≠ .waitingReply) (found : scheduler.tasks[index]? = some waiter)
    (waiting : waiter.state = .waitingReply) (change : TaskControlBlock → TaskControlBlock) :
    ∃ new, (scheduler.modifyTask me change).tasks[index]? = some new ∧ Waits waiter new := by
  rw [modifyTask_task, if_neg (places_ne here found fun same => awake (same ▸ waiting))]
  exact ⟨waiter, found, .refl waiting⟩

theorem Waits.setAside (scheduler : Scheduler) (cpu : CpuIndex) (sp : UInt64) (timer : Bool)
    (waiting : waiter.state = .waitingReply) :
    Waits waiter (scheduler.setAside cpu sp timer index waiter) := by
  obtain ⟨id, -, reply, waitFor⟩ := setAside_fields scheduler cpu sp timer index waiter
  refine ⟨id, ?_, waitFor, reply⟩
  rcases setAside_state scheduler cpu sp timer index waiter with
    ⟨same, _⟩ | ⟨_, ⟨running, _⟩ | sleeping⟩
  · rw [same, waiting]
  · rw [waiting] at running
    cases running
  · rw [waiting] at sleeping
    cases sleeping

/-- A context switch wakes no task that waits for a reply. -/
theorem waits_onTick (consistent : Consistent system) {sp : UInt64} {timer ipiAvailable : Bool}
    {outcome : TickOutcome}
    (ticked : system.scheduler.onTick cpu sp timer ipiAvailable = some outcome)
    (found : system.scheduler.tasks[index]? = some waiter)
    (waiting : waiter.state = .waitingReply) :
    ∃ new, outcome.scheduler.tasks[index]? = some new ∧ Waits waiter new := by
  rcases consistent.exclusive.switched ticked with ⟨_, same⟩ | ⟨registered, choice, _, _,
    oldFound, task_eq, _, _, picked, _, table, _⟩
  · rw [same]
    exact ⟨waiter, found, .refl waiting⟩
  have aside : Waits waiter (system.scheduler.setAside cpu sp timer index waiter) :=
    .setAside system.scheduler cpu sp timer waiting
  have apart : index ≠ choice := by
    intro chosen
    rw [← chosen] at oldFound task_eq picked
    rw [found] at oldFound
    cases oldFound
    rcases picked with ready | idle
    · rw [task_eq, aside.state] at ready
      cases ready
    · rw [idle] at found
      have outside := consistent.idle cpu waiter registered found
      have coherent := consistent.coherent _ waiter found
      rw [outside] at coherent
      exact coherent.not_sending rfl waiting
  rw [table, found, Option.map_some, if_neg apart]
  exact ⟨_, rfl, aside⟩

theorem Waits.deliver (msg : Rqb) (waiting : waiter.state = .waitingReply) :
    Waits waiter (deliver msg waiter) := by
  obtain ⟨id, -, reply, waitFor, -⟩ := rouse_fields .waitingRqb (enqueue msg waiter)
  refine ⟨id, ?_, waitFor, reply⟩
  rcases rouse_state .waitingRqb (enqueue msg waiter) with ⟨same, _⟩ | ⟨_, wrong⟩
  · exact same.trans waiting
  · have other : waiter.state = .waitingRqb := wrong
    rw [waiting] at other
    cases other

/-- A task goes on waiting through every action but the ones that end its wait. -/
theorem waits_of_turn (consistent : Consistent system) {action : Action} {outcome : Outcome}
    (turn : Turn system action outcome next) (found : system.scheduler.tasks[index]? = some waiter)
    (waiting : waiter.state = .waitingReply) :
    Ends system waiter action ∨
      ∃ new, next.scheduler.tasks[index]? = some new ∧ Waits waiter new := by
  have same : ∃ new, system.scheduler.tasks[index]? = some new ∧ Waits waiter new :=
    ⟨waiter, found, .refl waiting⟩
  cases turn with
  | interrupt ticked => exact .inr (waits_onTick consistent ticked found waiting)
  | yield _ _ ticked => exact .inr (waits_onTick consistent ticked found waiting)
  | createTask | refused | triedEmpty | unreplied | sleep | sleepTest => exact .inr same
  | @addTask task built =>
    right
    obtain ⟨slot, _, free, elsewhere⟩ := addTask_task system.scheduler task
    have apart : index ≠ slot := by
      rintro rfl
      rw [(free waiter found).1] at waiting
      cases waiting
    exact ⟨waiter, (elsewhere index apart).trans found, .refl waiting⟩
  | collectExited =>
    right
    refine ⟨collected system.scheduler index waiter, ?_, ?_⟩
    · exact (collectExited_task system.scheduler index).trans (congrArg _ found)
    · unfold collected
      split <;> exact ⟨rfl, waiting, rfl, rfl⟩
  | @accepted cpu receiver msg me sender place target calls _ there =>
    right
    have delivered : ∃ new, (system.scheduler.modifyTask place
        (deliver (msg.address sender.id receiver))).tasks[index]? = some new ∧
          Waits waiter new := by
      rw [modifyTask_task]
      by_cases chosen : place = index
      · rw [if_pos chosen, found]
        exact ⟨_, rfl, .deliver _ waiting⟩
      · rw [if_neg chosen]
        exact same
    have apart := places_ne calls.current.2 found fun same =>
      consistent.caller_awake calls (.inl rfl) (same ▸ waiting)
    show ∃ new, (Scheduler.modifyTask _ me _).tasks[index]? = some new ∧ _
    rw [modifyTask_task, if_neg apart]
    exact delivered
  | returned calls | spurious calls =>
    exact .inr (waits_modifyTask calls.current.2 (consistent.caller_awake calls (.inr rfl)) found
      waiting _)
  | received calls start | blocked calls start =>
    refine .inr (waits_modifyTask calls.current.2 (consistent.caller_awake calls (.inl ?_)) found
      waiting _)
    rcases start with rfl | rfl <;> rfl
  | tried calls | sleepCall calls =>
    exact .inr (waits_modifyTask calls.current.2 (consistent.caller_awake calls (.inl rfl)) found
      waiting _)
  | @replied cpu sender msg me replier place task calls there taskId _ waitFor _ posted =>
    by_cases chosen : place = index
    · subst chosen
      rw [there] at found
      cases found
      subst taskId
      exact .inl (.replied calls.current waitFor.symm posted)
    · right
      rw [modifyTask_task, if_neg chosen]
      exact same
  | @exit cpu me task calls =>
    by_cases owed : waiter.waitFor = task.id
    · exact .inl (.exited calls.current owed.symm)
    · right
      have apart := places_ne calls.current.2 found fun same =>
        consistent.caller_awake calls (.inl rfl) (same ▸ waiting)
      refine ⟨waiter, (exit_lookup system.scheduler.tasks me task.id index).trans ?_, .refl waiting⟩
      rw [found, Option.map_some, if_neg apart, abort, if_neg]
      simp [Scheduler.owed, owed]

/-- A sender that waits goes on waiting, unless the action ends its wait. -/
theorem awaits_of_turn (consistent : Consistent system) {action : Action} {outcome : Outcome}
    (turn : Turn system action outcome next) {sender : Nat}
    (awaits : Awaits system.scheduler sender receiver) :
    (∃ waiter, waiter.id = sender ∧ waiter.waitFor = receiver ∧ Ends system waiter action) ∨
      Awaits next.scheduler sender receiver := by
  obtain ⟨index, waiter, found, id, waiting, waitFor, empty⟩ := awaits
  rcases waits_of_turn consistent turn found waiting with ends | ⟨new, there, waits⟩
  · exact .inl ⟨waiter, id, waitFor, ends⟩
  · exact .inr ⟨index, new, there, waits.id.trans id, waits.state, waits.waitFor.trans waitFor,
      waits.reply.trans empty⟩

end Waits

/-! ### One action -/

section Step

variable {system next : System} {action : Action} {outcome : Outcome}

section

variable (paired : Paired system.scheduler) (consistent : Consistent system)
  (turn : Turn system action outcome next) (timely : ¬ Premature ⟨system, action, next⟩)
include paired consistent turn timely

/-- The sender of a queued request goes on waiting through an action that is no premature
reply, unless the receiver exits. -/
theorem Paired.still {index : Nat} (found : system.scheduler.tasks[index]? = some task)
    (stays : ∀ cpu me leaver, action = .exit cpu → system.scheduler.Current cpu me leaver →
      leaver.id ≠ task.id) (queued : msg ∈ task.inbox) :
    Awaits next.scheduler msg.senderId task.id := by
  rcases awaits_of_turn consistent turn ((paired index task found).2 msg queued) with
    ⟨waiter, id, waitFor, ends⟩ | awaits
  · exfalso
    cases ends with
    | @replied cpu reply me replier current owner accepted =>
      have same : me = index :=
        consistent.unique me index replier task current.2 found (owner.trans waitFor)
      subst same
      have here := current.2
      rw [found] at here
      cases here
      exact timely ⟨cpu, waiter.id, reply, rfl, accepted, me, task, current, msg, queued, id.symm⟩
    | @exited cpu me leaver current owner =>
      exact stays cpu me leaver rfl current (owner.trans waitFor)
  · exact awaits

/-- A task that loses requests at most keeps its requests paired. -/
theorem Paired.carry {index : Nat} {old new : TaskControlBlock}
    (found : system.scheduler.tasks[index]? = some old) (id : new.id = old.id)
    (fewer : new.inbox.Sublist old.inbox)
    (stays : ∀ cpu me leaver, action = .exit cpu → system.scheduler.Current cpu me leaver →
      leaver.id ≠ old.id) :
    (new.inbox.map Rqb.senderId).Nodup ∧
      ∀ msg ∈ new.inbox, Awaits next.scheduler msg.senderId new.id := by
  refine ⟨(paired index old found).1.sublist (fewer.map _), fun msg queued => ?_⟩
  rw [id]
  exact paired.still consistent turn timely found stays (fewer.mem queued)

end

/-- An accepted request leaves its sender waiting. -/
theorem awaits_accepted {kick : Option UInt32} {after : Scheduler}
    (turn : Turn system (.send cpu receiver msg) outcome next)
    (current : system.scheduler.Current cpu me sender)
    (accepted : system.scheduler.postRequest cpu receiver msg = some (.ok kick, after)) :
    Awaits next.scheduler sender.id receiver := by
  cases turn with
  | @accepted _ _ _ other caller place target calls different found targetId =>
    obtain ⟨rfl, rfl⟩ := calls.current.unique current
    have apart := places_ne found calls.current.2 fun same => different (same ▸ targetId.symm)
    refine ⟨other, block receiver caller, ?_, rfl, rfl, rfl, rfl⟩
    show (Scheduler.modifyTask _ other _).tasks[other]? = _
    rw [modifyTask_task, if_pos rfl, modifyTask_task, if_neg apart, calls.current.2]
    rfl
  | refused _ refused =>
    rw [refused] at accepted
    cases accepted

/-- The caller of a send has no request queued anywhere. -/
theorem Paired.caller_unqueued (paired : Paired system.scheduler) (consistent : Consistent system)
    (calls : Calls system cpu me sender .outside) {index : Nat}
    (found : system.scheduler.tasks[index]? = some task) :
    sender.id ∉ task.inbox.map Rqb.senderId := by
  intro member
  obtain ⟨msg, queued, same⟩ := mem_map.mp member
  obtain ⟨other, waiter, there, id, waiting, -⟩ := (paired index task found).2 msg queued
  have place := consistent.unique other me waiter sender there calls.current.2 (id.trans same)
  subst place
  rw [calls.current.2] at there
  cases there
  exact consistent.caller_awake calls (.inl rfl) waiting

/-- Every action but a premature reply keeps the requests paired. -/
theorem Paired.step (paired : Paired system.scheduler) (consistent : Consistent system)
    (acted : system.act action = some (outcome, next))
    (timely : ¬ Premature ⟨system, action, next⟩) : Paired next.scheduler := by
  have turn := System.turn_of_act acted
  intro index new there
  cases origin_of_act consistent acted there with
  | empty inbox =>
    rw [inbox]
    exact ⟨nodup_nil, forall_mem_nil _⟩
  | fewer found id inbox stays => exact paired.carry consistent turn timely found id inbox stays
  | @posted cpu receiver msg me sender target kick after calls accepted found id targetId _ inbox =>
    have fresh := paired.caller_unqueued consistent calls found
    rw [inbox, id, map_append]
    refine ⟨?_, fun queued member => ?_⟩
    · refine nodup_append.mpr ⟨(paired index target found).1, nodup_singleton _, ?_⟩
      intro first member _ latest same
      rw [mem_singleton.mp latest] at same
      have sent : sender.id = first := same.symm
      rw [sent] at fresh
      exact fresh member
    · rcases mem_append.mp member with earlier | latest
      · exact paired.still consistent turn timely found (fun _ _ _ wrong => by cases wrong)
          earlier
      · rw [mem_singleton.mp latest, targetId]
        exact awaits_accepted turn calls.current accepted

/-- A premature reply leaves a request whose sender waits no longer. -/
theorem not_paired_of_premature (consistent : Consistent system) (consistentAfter : Consistent next)
    (acted : system.act action = some (outcome, next))
    (premature : Premature ⟨system, action, next⟩) : ¬ Paired next.scheduler := by
  intro paired
  obtain ⟨cpu, sender, msg, label, ⟨_, _, accepted⟩, _, _, current, request, queued,
    same⟩ := premature
  have replies : action = .reply cpu sender msg := label
  subst replies
  cases System.turn_of_act acted with
  | @replied _ _ _ other caller place waiter calls found waiterId waiting waitFor =>
    obtain ⟨rfl, rfl⟩ := calls.current.unique current
    have apart := places_ne found calls.current.2 fun same =>
      consistent.caller_awake calls (.inl rfl) (same ▸ waiting)
    have here : (system.scheduler.modifyTask place
        (answer (msg.address caller.id sender))).tasks[other]? = some caller := by
      rw [modifyTask_task, if_neg apart, calls.current.2]
    have there : (system.scheduler.modifyTask place
        (answer (msg.address caller.id sender))).tasks[place]? =
          some (answer (msg.address caller.id sender) waiter) := by
      rw [modifyTask_task, if_pos rfl, found]
      rfl
    obtain ⟨index, task, taskFound, id, stillWaiting, -⟩ :=
      (paired other caller here).2 request queued
    have answered : (answer (msg.address caller.id sender) waiter).id = task.id := by
      rw [answer_eq _ _ waiting, id, same, waiterId]
    have index_eq := consistentAfter.unique place index _ task there taskFound answered
    subst index_eq
    rw [there] at taskFound
    cases taskFound
    rw [answer_eq _ _ waiting] at stillWaiting
    cases stillWaiting
  | unreplied _ refused =>
    rw [refused] at accepted
    cases accepted

end Step

/-! ### Whole runs -/

section Runs

variable {start last : System} {moves : List (Move System Action)}

theorem BootSystem.paired (boot : BootSystem start) : Paired start.scheduler := by
  intro index task found
  rw [boot.inboxes index task found]
  exact ⟨nodup_nil, forall_mem_nil _⟩

/-- The requests are paired at the start of a run and after each of its moves. -/
def PairedThroughout (start : System) (moves : List (Move System Action)) : Prop :=
  Paired start.scheduler ∧ ∀ move ∈ moves, Paired move.after.scheduler

theorem paired_of_timely (boot : BootSystem start) (run : Run kernel start moves last)
    (timely : ∀ move ∈ moves, ¬ Premature move) :
    Paired last.scheduler ∧ PairedThroughout start moves := by
  induction run with
  | nil => exact ⟨boot.paired, boot.paired, forall_mem_nil _⟩
  | @snoc before after moves action run step ih =>
    obtain ⟨paired, initially, always⟩ :=
      ih fun move member => timely move (mem_append_left _ member)
    obtain ⟨_, _, acted⟩ := step
    have consistent := consistent_of_reachable ((Reachable.init boot).run run)
    have next := paired.step consistent acted
      (timely _ (mem_append_right _ (mem_singleton.mpr rfl)))
    exact ⟨next, initially, forall_mem_append.mpr ⟨always, forall_mem_singleton.mpr next⟩⟩

theorem label_of_mem_moves {system : System} {actions : List Action} {move : Move System Action}
    (member : move ∈ system.moves actions) : move.label ∈ actions := by
  induction actions generalizing system with
  | nil => cases member
  | cons action rest ih =>
    rcases mem_cons.mp member with rfl | later
    · exact mem_cons_self
    · exact mem_cons_of_mem _ (ih later)

/-- The requests stay paired along a run just if no reply of it is premature. -/
theorem paired_iff_timely (boot : BootSystem start) (run : Run kernel start moves last) :
    PairedThroughout start moves ↔ ∀ move ∈ moves, ¬ Premature move := by
  refine ⟨?_, fun timely => (paired_of_timely boot run timely).2⟩
  rintro ⟨-, always⟩ move member premature
  obtain ⟨reachable, step⟩ := run.move_of_mem (.init boot) member
  obtain ⟨_, outcome, acted⟩ := step
  exact not_paired_of_premature (consistent_of_reachable reachable)
    (consistent_of_reachable (reachable.step move.label ⟨‹_›, outcome, acted⟩)) acted premature
    (always move member)

/-- A client sends a request, which the server takes; nobody has replied yet. -/
theorem paired_requestActions : PairedThroughout twoCpus (twoCpus.moves requestActions) := by
  refine (paired_iff_timely twoCpus_boot
    (run_moves prepared_requestActions (by decide +kernel))).mpr ?_
  rintro _ member ⟨_, _, _, label, -⟩
  have listed := label_of_mem_moves member
  rw [label] at listed
  simp [requestActions] at listed

/-- The server has replied before it took the request. -/
def earlyReply : System := (twoTasks.after (.send 0 4 Rqb.new)).after (.reply 1 3 Rqb.new)

/-- The early reply wakes the client and leaves its request in the server's inbox. -/
theorem not_paired_earlyReply : Reachable kernel earlyReply ∧ ¬ Paired earlyReply.scheduler := by
  have sent := reachable_after twoTasks_reachable (.send 0 4 Rqb.new) (by simp) rfl
  refine ⟨reachable_after sent (.reply 1 3 Rqb.new) (by simp) rfl, fun paired => ?_⟩
  have queued : earlyReply.scheduler.tasks[3]?.map TaskControlBlock.inbox =
      some [Rqb.new.address 3 4] := by decide +kernel
  have awake : ∀ task ∈ earlyReply.scheduler.tasks, task.state ≠ .waitingReply := by
    decide +kernel
  obtain ⟨server, found, inbox⟩ := Option.map_eq_some_iff.mp queued
  obtain ⟨_, client, there, -, waiting, -⟩ :=
    (paired 3 server found).2 (Rqb.new.address 3 4) (inbox ▸ List.mem_singleton.mpr rfl)
  exact awake client (List.mem_of_getElem? there) waiting

end Runs

end Mmurtl.Scheduler

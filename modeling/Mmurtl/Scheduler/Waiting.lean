/-
This file proves that no wake-up is lost and that no task waits on a dead one.

The invariant ties where a task is in its code to its state, its inbox, its reply
slot and the liveness of the task it waits for. It is stated task by task, so a
step has to re-establish it for the task it changes and to keep the receivers of
the others alive; only an exit takes a task away, and it answers everyone who
waits for it in the same step.
-/

import Mmurtl.Scheduler.Program

namespace Mmurtl.Scheduler

open Transition List Function

variable {live later : Nat → Prop} {receiver index me : Nat} {scheduler : Scheduler}
  {system next : System} {pc moved resumed : Pc} {msg : Rqb} {cpu : CpuIndex}
  {task : TaskControlBlock}

/-! ### The invariant -/

/-- Some task that has not exited has the identifier. -/
def Live (scheduler : Scheduler) (id : Nat) : Prop :=
  ∃ (index : Nat) (task : TaskControlBlock), scheduler.tasks[index]? = some task ∧
    task.id = id ∧ task.state ≠ .exited

/-- A task agrees with where it is in its code. -/
structure Coherent (live : Nat → Prop) (pc : Pc) (task : TaskControlBlock) : Prop where
  inbox : task.state = .waitingRqb → task.inbox = []
  exited : task.state = .exited ↔ pc = .exiting
  waiting : task.state = .waitingReply →
    pc.sendingTo = some task.waitFor ∧ task.waitFor ≠ task.id ∧ live task.waitFor ∧
      task.reply = none
  sending : pc.sendingTo ≠ none →
    task.state = .waitingReply ∨
      (task.state = .ready ∨ task.state = .running) ∧ task.reply ≠ none
  checking : pc.checks = true → task.onCpu ≠ none → task.state = .running

/-- Identifiers are unique and below the counter, idle tasks are outside the calls, and every
task agrees with where it is in its code. -/
structure Consistent (system : System) : Prop where
  exclusive : Exclusive system.scheduler
  unique : ∀ (first second : Nat) task other,
    system.scheduler.tasks[first]? = some task → system.scheduler.tasks[second]? = some other →
    task.id = other.id → first = second
  bounded : ∀ (index : Nat) task,
    system.scheduler.tasks[index]? = some task → task.id < system.nextId
  built : ∀ task ∈ system.prepared, Prepared task ∧ task.id < system.nextId ∧
    system.pc task.id = .outside ∧
    ∀ (index : Nat) other, system.scheduler.tasks[index]? = some other →
      other.id ≠ task.id
  distinct : (system.prepared.map TaskControlBlock.id).Nodup
  unborn : ∀ id, system.nextId ≤ id → system.pc id = .outside
  idle : ∀ cpu task,
    (system.scheduler.cpus cpu).registered = true →
    system.scheduler.tasks[(system.scheduler.cpus cpu).idleIdx]? = some task →
    system.pc task.id = .outside
  coherent : ∀ (index : Nat) task,
    system.scheduler.tasks[index]? = some task →
    Coherent (Live system.scheduler) (system.pc task.id) task

theorem Coherent.mono (coherent : Coherent live pc task) (kept : ∀ id, live id → later id) :
    Coherent later pc task :=
  { coherent with
    waiting := fun waits =>
      let ⟨sends, different, alive, empty⟩ := coherent.waiting waits
      ⟨sends, different, kept _ alive, empty⟩ }

/-- A task outside a send is neither waiting for a reply nor exited. -/
theorem Coherent.not_sending (coherent : Coherent live pc task) (quiet : pc.sendingTo = none) :
    task.state ≠ .waitingReply := by
  intro waits
  rw [(coherent.waiting waits).1] at quiet
  cases quiet

/-! ### Changes that keep the table's shape -/

theorem live_of_map {next : Scheduler} {change : Nat → TaskControlBlock → TaskControlBlock}
    (tasks : ∀ index, next.tasks[index]? = scheduler.tasks[index]?.map (change index))
    (ids : ∀ index task, (change index task).id = task.id) {id : Nat}
    (alive : ∀ index task, scheduler.tasks[index]? = some task → task.id = id →
      task.state ≠ .exited → (change index task).state ≠ .exited) (live : Live scheduler id) :
    Live next id := by
  obtain ⟨index, task, found, same, present⟩ := live
  exact ⟨index, change index task, by rw [tasks, found]; rfl, by rw [ids, same],
    alive index task found same present⟩

/-- A step that changes tasks in place keeps the invariant if it keeps every task in agreement
with its code. -/
theorem Consistent.of_map (consistent : Consistent system)
    (change : Nat → TaskControlBlock → TaskControlBlock)
    (tasks : ∀ index, next.scheduler.tasks[index]? =
      system.scheduler.tasks[index]?.map (change index))
    (ids : ∀ index task, (change index task).id = task.id) (exclusive : Exclusive next.scheduler)
    (records : ∀ cpu, (next.scheduler.cpus cpu).registered =
      (system.scheduler.cpus cpu).registered ∧
      (next.scheduler.cpus cpu).idleIdx = (system.scheduler.cpus cpu).idleIdx)
    (nextId : next.nextId = system.nextId) (prepared : next.prepared = system.prepared)
    (elsewhere : ∀ id, (∀ (index : Nat) task,
      system.scheduler.tasks[index]? = some task → task.id ≠ id) → next.pc id = system.pc id)
    (idle : ∀ cpu task, (system.scheduler.cpus cpu).registered = true →
      system.scheduler.tasks[(system.scheduler.cpus cpu).idleIdx]? = some task →
      next.pc task.id = .outside) (coherent : ∀ (index : Nat) task,
      system.scheduler.tasks[index]? = some task →
      Coherent (Live next.scheduler) (next.pc task.id) (change index task)) : Consistent next := by
  have origin : ∀ {index : Nat} {new : TaskControlBlock},
      next.scheduler.tasks[index]? = some new →
      ∃ old, system.scheduler.tasks[index]? = some old ∧ new = change index old := by
    intro index _ found
    rw [tasks] at found
    obtain ⟨old, source, same⟩ := Option.map_eq_some_iff.mp found
    exact ⟨old, source, same.symm⟩
  refine ⟨exclusive, ?_, ?_, ?_, ?_, ?_, ?_, ?_⟩
  · intro first second task other left right same
    obtain ⟨old, source, rfl⟩ := origin left
    obtain ⟨old', source', rfl⟩ := origin right
    rw [ids, ids] at same
    exact consistent.unique first second old old' source source' same
  · intro index task found
    obtain ⟨old, source, rfl⟩ := origin found
    rw [ids, nextId]
    exact consistent.bounded index old source
  · intro task member
    rw [prepared] at member
    obtain ⟨ready, below, outside, apart⟩ := consistent.built task member
    refine ⟨ready, by rw [nextId]; exact below, ?_, fun index other found => ?_⟩
    · rw [elsewhere task.id apart]
      exact outside
    · obtain ⟨old, source, rfl⟩ := origin found
      rw [ids]
      exact apart index old source
  · rw [prepared]
    exact consistent.distinct
  · intro id above
    rw [nextId] at above
    rw [elsewhere id fun index task found => Nat.ne_of_lt
      (Nat.lt_of_lt_of_le (consistent.bounded index task found) above)]
    exact consistent.unborn id above
  · intro cpu task registered found
    rw [(records cpu).1] at registered
    rw [(records cpu).2] at found
    obtain ⟨old, source, rfl⟩ := origin found
    rw [ids]
    exact idle cpu old registered source
  · intro index task found
    obtain ⟨old, source, rfl⟩ := origin found
    rw [ids]
    exact coherent index old source

/-- An idle task is not the caller of an interface function. -/
theorem Calls.not_idle (calls : Calls system cpu me task pc)
    (exclusive : Exclusive system.scheduler) {home : CpuIndex}
    (registered : (system.scheduler.cpus home).registered = true) :
    (system.scheduler.cpus home).idleIdx ≠ me := by
  intro same
  obtain ⟨idle, found, _, _, _, only⟩ := exclusive.idle home registered
  rw [same] at found
  have here := only cpu (exclusive.onCpu_of_current ⟨calls.current.1, found⟩)
  subst here
  exact calls.busy (by rw [same]; exact calls.current.1)

section

variable (consistent : Consistent system) (calls : Calls system cpu me task pc)
  (change : Nat → TaskControlBlock → TaskControlBlock)
  (cpus : scheduler.cpus = system.scheduler.cpus)
  (tasks : ∀ index, scheduler.tasks[index]? = system.scheduler.tasks[index]?.map (change index))
  (ids : ∀ index task, (change index task).id = task.id) (exclusive : Exclusive scheduler)
include consistent calls cpus tasks ids exclusive

/-- A step of a caller keeps the invariant if it keeps the caller in agreement with the point
it moves to and every other task in agreement with the point it stays at. -/
theorem Consistent.of_call (kept : ∀ id, live id → Live scheduler id)
    (mine : Coherent live moved (change me task)) (others : ∀ (index : Nat) other, index ≠ me →
      system.scheduler.tasks[index]? = some other →
      Coherent live (system.pc other.id) (change index other)) :
    Consistent (system.goto scheduler task.id moved) := by
  have differs : ∀ {index : Nat} {other : TaskControlBlock}, index ≠ me →
      system.scheduler.tasks[index]? = some other → other.id ≠ task.id := by
    intro index other apart found same
    exact apart (consistent.unique index me other task found calls.current.2 same)
  refine consistent.of_map change tasks ids exclusive (fun other => ?_) rfl rfl
    (fun id absent => ?_) (fun home idle registered found => ?_) fun index other found => ?_
  · show (scheduler.cpus other).registered = _ ∧ (scheduler.cpus other).idleIdx = _
    rw [cpus]
    exact ⟨rfl, rfl⟩
  · exact update_of_ne (Ne.symm (absent me task calls.current.2)) _ _
  · have apart := calls.not_idle consistent.exclusive registered
    show Function.update system.pc task.id moved idle.id = .outside
    rw [update_of_ne (differs apart found)]
    exact consistent.idle home idle registered found
  · show Coherent (Live scheduler) (Function.update system.pc task.id moved other.id) _
    by_cases same : index = me
    · subst same
      have other_eq : other = task := Option.some.inj (found.symm.trans calls.current.2)
      subst other_eq
      rw [update_self]
      exact mine.mono kept
    · rw [update_of_ne (differs same found)]
      exact (others index other same found).mono kept

/-- A step of a caller after which all tasks are still alive keeps the invariant if it keeps the
tasks in agreement with their code as long as the same tasks are alive. -/
theorem Consistent.of_living (alive : ∀ index other, system.scheduler.tasks[index]? = some other →
      other.state ≠ .exited → (change index other).state ≠ .exited)
    (mine : Coherent (Live system.scheduler) moved (change me task))
    (others : ∀ (index : Nat) other, index ≠ me → system.scheduler.tasks[index]? = some other →
      Coherent (Live system.scheduler) (system.pc other.id) (change index other)) :
    Consistent (system.goto scheduler task.id moved) :=
  consistent.of_call calls change cpus tasks ids exclusive (fun _ => live_of_map tasks ids
    fun index other found _ present => alive index other found present) mine others

end

/-- A step that changes only its caller, which stays alive, keeps the invariant if it keeps
the caller in agreement with the point it moves to. -/
theorem Consistent.of_self (consistent : Consistent system) (calls : Calls system cpu me task pc)
    (change : TaskControlBlock → TaskControlBlock) (ids : ∀ task, (change task).id = task.id)
    (exclusive : Exclusive (system.scheduler.modifyTask me change))
    (alive : (change task).state ≠ .exited)
    (mine : Coherent (Live system.scheduler) moved (change task)) :
    Consistent (system.goto (system.scheduler.modifyTask me change) task.id moved) := by
  refine consistent.of_living calls (fun index other => if me = index then change other else other)
    rfl (system.scheduler.modifyTask_map me change) (fun index other => ?_) exclusive
    (fun index other found present => ?_) ?_ fun index other apart found => ?_
  · split
    · exact ids other
    · rfl
  · by_cases same : me = index
    · subst same
      have other_eq : other = task := Option.some.inj (found.symm.trans calls.current.2)
      subst other_eq
      rw [if_pos rfl]
      exact alive
    · rw [if_neg same]
      exact present
  · rw [if_pos rfl]
    exact mine
  · rw [if_neg (Ne.symm apart)]
    exact consistent.coherent index other found

/-! ### Context switches -/

theorem Pc.afterYield_sendingTo (yields : pc.afterYield = some resumed) :
    resumed.sendingTo = pc.sendingTo := by
  cases pc <;> cases yields <;> rfl

theorem Pc.afterYield_exiting (yields : pc.afterYield = some resumed) :
    resumed = .exiting ↔ pc = .exiting := by
  cases pc <;> cases yields <;> simp

/-- A task that keeps its identifier, its reply slot and whom it waits for stays in agreement
with its code if its state stays, or becomes ready where no reply was awaited. -/
theorem Coherent.change {new : TaskControlBlock} (coherent : Coherent live pc task)
    (fields : new.id = task.id ∧ new.reply = task.reply ∧ new.waitFor = task.waitFor)
    (state : new.state = task.state ∨
      new.state = .ready ∧ task.state ≠ .exited ∧ task.state ≠ .waitingReply)
    (sendingTo : moved.sendingTo = pc.sendingTo) (leaves : moved = .exiting ↔ pc = .exiting)
    (inbox : new.state = .waitingRqb → new.inbox = [])
    (checking : moved.checks = true → new.onCpu ≠ none → new.state = .running) :
    Coherent live moved new := by
  obtain ⟨id, reply, waitFor⟩ := fields
  refine ⟨inbox, ?_, fun waits => ?_, fun sends => ?_, checking⟩
  · rw [leaves, ← coherent.exited]
    rcases state with same | ⟨ready, alive, _⟩
    · rw [same]
    · simp [ready, alive]
  · rcases state with same | ⟨ready, _⟩
    · rw [sendingTo, id, reply, waitFor]
      exact coherent.waiting (same.symm.trans waits)
    · exact absurd (ready.symm.trans waits) (by decide)
  · rw [sendingTo] at sends
    rw [reply]
    rcases state with same | ⟨ready, _, awake⟩
    · rw [same]
      exact coherent.sending sends
    · exact Or.inr ⟨Or.inl ready, ((coherent.sending sends).resolve_left awake).2⟩

/-- A task that is set aside, and moves past its yield if it was the one yielding, stays in
agreement with its code. -/
theorem Coherent.setAside (coherent : Coherent live pc task) (scheduler : Scheduler)
    (cpu : CpuIndex) (sp : UInt64) (timer : Bool) (index : Nat)
    (moves : moved = pc ∨ (scheduler.cpus cpu).current = some index ∧ pc.afterYield = some moved) :
    Coherent live moved (scheduler.setAside cpu sp timer index task) := by
  obtain ⟨id, inbox, reply, waitFor⟩ := setAside_fields scheduler cpu sp timer index task
  have state := setAside_state scheduler cpu sp timer index task
  have onCpu := setAside_onCpu scheduler cpu sp timer index task
  generalize scheduler.setAside cpu sp timer index task = new at *
  refine coherent.change ⟨id, reply, waitFor⟩ ?_ ?_ ?_ (fun waits => ?_) fun checks away => ?_
  · rcases state with ⟨same, _⟩ | ⟨ready, ⟨running, _⟩ | sleeping⟩
    · exact Or.inl same
    · exact Or.inr ⟨ready, by simp [running]⟩
    · exact Or.inr ⟨ready, by simp [sleeping]⟩
  · rcases moves with rfl | ⟨_, yields⟩
    · rfl
    · exact Pc.afterYield_sendingTo yields
  · rcases moves with rfl | ⟨_, yields⟩
    · rfl
    · exact Pc.afterYield_exiting yields
  · rw [inbox]
    rcases state with ⟨same, _⟩ | ⟨ready, _⟩
    · exact coherent.inbox (same.symm.trans waits)
    · exact absurd (ready.symm.trans waits) (by decide)
  · rw [onCpu] at away
    split at away
    · exact absurd rfl away
    · rename_i elsewhere
      rcases moves with rfl | ⟨here, _⟩
      · have running := coherent.checking checks away
        rcases state with ⟨same, _⟩ | ⟨_, ⟨_, here⟩ | sleeping⟩
        · exact same.trans running
        · exact absurd here elsewhere
        · exact absurd (running.symm.trans sleeping) (by decide)
      · exact absurd here elsewhere

/-- A ready task, or an idle one, that is given a CPU stays in agreement with its code. -/
theorem Coherent.resume (coherent : Coherent live pc task) (cpu : CpuIndex)
    (alive : task.state ≠ .exited) (picked : task.state = .ready ∨ pc = .outside) :
    Coherent live pc (Scheduler.resume cpu task) := by
  refine ⟨nofun, ?_, nofun, fun sends => Or.inr ⟨Or.inr rfl, ?_⟩, fun _ _ => rfl⟩
  · have open_ : pc ≠ .exiting := fun gone => alive (coherent.exited.mpr gone)
    simp [Scheduler.resume, open_]
  · rcases picked with ready | rfl
    · exact ((coherent.sending sends).resolve_left (by simp [ready])).2
    · exact absurd rfl sends

/-- A context switch keeps the invariant, whether it interrupts the current task or is that
task's own yield. -/
theorem Consistent.onTick (consistent : Consistent system) {sp : UInt64} {timer ipiAvailable : Bool}
    {outcome : TickOutcome} {pc : Nat → Pc}
    (ticked : system.scheduler.onTick cpu sp timer ipiAvailable = some outcome)
    (moves : ∀ id, pc id = system.pc id ∨ ∃ index task, system.scheduler.Current cpu index task ∧
      task.id = id ∧ (system.pc id).afterYield = some (pc id))
    (stutters : (system.scheduler.cpus cpu).registered = false ∨ system.scheduler.tasks = [] →
      pc = system.pc) : Consistent { system with scheduler := outcome.scheduler, pc := pc } := by
  have exclusive := consistent.exclusive.onTick ticked
  rcases consistent.exclusive.switched ticked with ⟨inactive, same⟩ | ⟨registered, choice, _,
    old, oldFound, task_eq, _, alive, picked, _, table, records⟩
  · rw [same, stutters inactive]
    exact consistent
  have ids : ∀ index other, (if index = choice then
      Scheduler.resume cpu (system.scheduler.setAside cpu sp timer index other)
      else system.scheduler.setAside cpu sp timer index other).id = other.id := by
    intro index other
    split
    · exact (setAside_fields system.scheduler cpu sp timer index other).1
    · exact (setAside_fields system.scheduler cpu sp timer index other).1
  have kept : ∀ id, Live system.scheduler id → Live outcome.scheduler id := by
    intro id
    refine live_of_map table ids fun index other found _ present => ?_
    split
    · simp [Scheduler.resume]
    · rw [Ne, setAside_exited]
      exact present
  have outside : ∀ {id : Nat}, system.pc id = .outside → pc id = .outside := by
    intro id here
    rcases moves id with same | ⟨_, _, _, _, yields⟩
    · rw [same, here]
    · rw [here] at yields
      exact (Option.some.inj yields).symm
  refine consistent.of_map _ table ids exclusive (fun home => ?_) rfl rfl (fun id absent => ?_)
    (fun home idle homeRegistered found => outside
      (consistent.idle home idle homeRegistered found)) fun index other found => ?_
  · rw [records]
    by_cases same : home = cpu
    · subst same
      rw [update_self]
      exact ⟨rfl, rfl⟩
    · rw [update_of_ne same]
      exact ⟨rfl, rfl⟩
  · rcases moves id with same | ⟨me, current, here, same, _⟩
    · exact same
    · exact absurd same (absent me current here.2)
  · have aside : Coherent (Live outcome.scheduler) (pc other.id)
        (system.scheduler.setAside cpu sp timer index other) := by
      refine ((consistent.coherent index other found).mono kept).setAside _ _ _ _ _ ?_
      rcases moves other.id with same | ⟨me, current, here, same, yields⟩
      · exact Or.inl same
      · have me_eq := consistent.unique me index current other here.2 found same
        subst me_eq
        exact Or.inr ⟨here.1, yields⟩
    by_cases chosen : index = choice
    · rw [if_pos chosen]
      subst chosen
      have other_eq : other = old := Option.some.inj (found.symm.trans oldFound)
      subst other_eq
      rw [← task_eq] at aside ⊢
      refine aside.resume cpu alive ?_
      rcases picked with ready | idleIdx
      · exact Or.inl ready
      · rw [idleIdx] at found
        exact Or.inr (outside (consistent.idle cpu other registered found))
    · rw [if_neg chosen]
      exact aside

/-! ### Requests, replies and exits -/

theorem rouse_state (expected : TaskState) (task : TaskControlBlock) :
    (rouse expected task).state = task.state ∧ task.state ≠ expected ∨
      (rouse expected task).state = .ready ∧ task.state = expected := by
  unfold rouse
  split
  · rename_i same
    exact Or.inr ⟨rfl, same⟩
  · rename_i different
    exact Or.inl ⟨rfl, different⟩

theorem rouse_fields (expected : TaskState) (task : TaskControlBlock) :
    (rouse expected task).id = task.id ∧ (rouse expected task).inbox = task.inbox ∧
      (rouse expected task).reply = task.reply ∧ (rouse expected task).waitFor = task.waitFor ∧
      (rouse expected task).onCpu = task.onCpu := by
  unfold rouse
  split <;> exact ⟨rfl, rfl, rfl, rfl, rfl⟩

/-- A task that is delivered a request stays in agreement with its code: if it waited for one,
it does not any more. -/
theorem Coherent.deliver (coherent : Coherent live pc task) (msg : Rqb) :
    Coherent live pc (Scheduler.deliver msg task) := by
  obtain ⟨id, _, reply, waitFor, onCpu⟩ := rouse_fields .waitingRqb (enqueue msg task)
  have state := rouse_state .waitingRqb (enqueue msg task)
  unfold Scheduler.deliver
  generalize rouse .waitingRqb (enqueue msg task) = new at *
  refine coherent.change ⟨id, reply, waitFor⟩ ?_ rfl Iff.rfl (fun waits => ?_) fun checks away => ?_
  · rcases state with ⟨same, _⟩ | ⟨ready, waits⟩
    · exact Or.inl same
    · have waits : task.state = .waitingRqb := waits
      exact Or.inr ⟨ready, by simp [waits]⟩
  · rcases state with ⟨same, different⟩ | ⟨ready, _⟩
    · exact absurd (same.symm.trans waits) different
    · exact absurd (ready.symm.trans waits) (by decide)
  · rw [onCpu] at away
    have running := coherent.checking checks away
    rcases state with ⟨same, _⟩ | ⟨_, waits⟩
    · exact same.trans running
    · exact absurd (running.symm.trans waits) (by decide)

/-- A waiting task that is answered stays in agreement with its code. Its sender cannot be at
the check of its slot with a CPU, since it would be running then. -/
theorem Coherent.answer (coherent : Coherent live pc task) (waiting : task.state = .waitingReply)
    (msg : Rqb) : Coherent later pc (Scheduler.answer msg task) := by
  rw [answer_eq msg task waiting]
  refine ⟨nofun, ?_, nofun, fun _ => Or.inr ⟨Or.inl rfl, by simp⟩, fun checks away => ?_⟩
  · have open_ : pc ≠ .exiting := fun gone =>
      absurd (waiting.symm.trans (coherent.exited.mpr gone)) (by decide)
    simp [open_]
  · exact absurd (waiting.symm.trans (coherent.checking checks away)) (by decide)

/-- A task outside the calls stays in agreement with its code when it moves to a point that is
not in a send, as long as its state stays away from the waiting and exited ones. -/
theorem coherent_of_quiet (quiet : pc.sendingTo = none) (open_ : pc ≠ .exiting)
    (inbox : task.state = .waitingRqb → task.inbox = []) (alive : task.state ≠ .exited)
    (awake : task.state ≠ .waitingReply) : Coherent live pc task := by
  refine ⟨inbox, ?_, fun waits => absurd waits awake, fun sends => absurd quiet sends, ?_⟩
  · exact ⟨fun gone => absurd gone alive, fun gone => absurd gone open_⟩
  · intro checks
    cases pc <;> simp_all [Pc.checks, Pc.sendingTo]

section Calls

section

variable (consistent : Consistent system) (calls : Calls system cpu me task pc)
include consistent calls

theorem Consistent.caller : Coherent (Live system.scheduler) pc task := by
  rw [← calls.at_pc]
  exact consistent.coherent me task calls.current.2

theorem Consistent.caller_alive (open_ : pc ≠ .exiting) : task.state ≠ .exited :=
  fun gone => open_ ((consistent.caller calls).exited.mp gone)

omit calls in
/-- A task that runs and is at the check of its send has a reply. -/
theorem Consistent.caller_replied (calls : Calls system cpu me task (.sendCheck receiver)) :
    task.reply ≠ none := by
  have coherent := consistent.caller calls
  have onCpu := consistent.exclusive.onCpu_of_current calls.current
  have running := coherent.checking rfl (by simp [onCpu])
  rcases coherent.sending (by simp [Pc.sendingTo]) with waits | ⟨_, replied⟩
  · rw [running] at waits
    cases waits
  · exact replied

/-- A caller that only moves to another point outside a send keeps the invariant. -/
theorem Consistent.move (from_ : pc.sendingTo = none) (open_ : pc ≠ .exiting)
    (quiet : moved.sendingTo = none) (stays : moved ≠ .exiting) :
    Consistent (system.goto system.scheduler task.id moved) := by
  have coherent := consistent.caller calls
  refine consistent.of_living calls (fun _ other => other) rfl (fun index => ?_) (fun _ _ => rfl)
    consistent.exclusive (fun _ _ _ present => present) ?_ fun index other _ found =>
    consistent.coherent index other found
  · simp
  · exact coherent_of_quiet quiet stays coherent.inbox (consistent.caller_alive calls open_)
      (coherent.not_sending from_)

end

section

variable (consistent : Consistent system) (calls : Calls system cpu me task .outside)
include consistent calls

/-- A request is queued at its receiver and its sender blocks on a live task. -/
theorem Consistent.accepted {target : TaskControlBlock} (different : receiver ≠ task.id)
    (found : system.scheduler.tasks[index]? = some target) (targetId : target.id = receiver)
    (alive : target.state ≠ .exited) :
    Consistent (system.goto ((system.scheduler.modifyTask index
      (Scheduler.deliver msg)).modifyTask me (block receiver)) task.id (.sendYield receiver)) := by
  have apart := places_ne found calls.current.2 fun same => different (same ▸ targetId.symm)
  have lookup : ∀ other, _ = system.scheduler.tasks[other]?.map _ :=
    request_lookup apart (Scheduler.deliver msg) (block receiver)
  have delivered : ∀ old, (Scheduler.deliver msg old).id = old.id :=
    fun old => (rouse_fields .waitingRqb (enqueue msg old)).1
  have exclusive := consistent.exclusive.request calls.current apart msg receiver
  refine consistent.of_living calls _ rfl lookup (fun other old => ?_) exclusive
    (fun other old _ present => ?_) ?_ fun other old away otherFound => ?_
  · split
    · rfl
    · split
      · exact delivered old
      · rfl
  · split
    · simp [block]
    · split
      · rcases rouse_state .waitingRqb (enqueue msg old) with ⟨same, _⟩ | ⟨ready, _⟩
        · exact fun gone => present (same.symm.trans gone)
        · exact fun gone => absurd (ready.symm.trans gone) (by decide)
      · exact present
  · rw [if_pos rfl]
    refine ⟨by rintro ⟨⟩, by simp [block], fun _ => ?_, fun _ => Or.inl rfl, by rintro ⟨⟩⟩
    exact ⟨rfl, different, ⟨index, target, found, targetId, alive⟩, rfl⟩
  · rw [if_neg (Ne.symm away)]
    have coherent := consistent.coherent other old otherFound
    split
    · exact coherent.deliver msg
    · exact coherent

/-- A reply wakes the sender that waits for it. -/
theorem Consistent.replied {waiter : TaskControlBlock}
    (found : system.scheduler.tasks[index]? = some waiter)
    (waiting : waiter.state = .waitingReply) :
    Consistent { system with
      scheduler := system.scheduler.modifyTask index (Scheduler.answer msg) } := by
  have quiet := (consistent.caller calls).not_sending rfl
  have apart := places_ne found calls.current.2 fun same => quiet (same ▸ waiting)
  have lookup := system.scheduler.modifyTask_map index (Scheduler.answer msg)
  have same : ∀ {old}, system.scheduler.tasks[index]? = some old → old = waiter :=
    fun oldFound => Option.some.inj (oldFound.symm.trans found)
  rw [← System.goto_outside system _ calls.at_pc]
  refine consistent.of_living calls _ rfl lookup (fun other old => ?_)
    (consistent.exclusive.answer index msg) (fun other old oldFound present => ?_) ?_
    fun other old away otherFound => ?_
  · split
    · exact (rouse_fields .waitingReply { old with reply := some msg }).1
    · rfl
  · split
    case isTrue here =>
      subst here
      rw [same oldFound, answer_eq msg waiter waiting]
      simp
    case isFalse => exact present
  · rw [if_neg apart]
    exact consistent.caller calls
  · have coherent := consistent.coherent other old otherFound
    split
    case isTrue here =>
      subst here
      exact coherent.answer (same otherFound ▸ waiting) msg
    case isFalse => exact coherent

end

theorem abort_id (exiting : Nat) (old : TaskControlBlock) : (abort exiting old).id = old.id := by
  unfold abort
  split
  · exact (rouse_fields .waitingReply
      { old with reply := some (Rqb.abortNotice exiting old.id) }).1
  · rfl

/-- An exit answers every task that waits for the caller, so nobody waits on a dead task. -/
theorem Consistent.exit (consistent : Consistent system)
    (calls : Calls system cpu me task .outside) :
    Consistent (system.goto { system.scheduler with
      tasks := (system.scheduler.tasks.modify me Scheduler.exit).map (abort task.id) }
      task.id .exiting) := by
  have lookup := exit_lookup system.scheduler.tasks me task.id
  have ids : ∀ other old,
      (abort task.id (if me = other then Scheduler.exit old else old)).id = old.id := by
    intro other old
    rw [abort_id]
    split <;> rfl
  have exclusive := consistent.exclusive.exit calls.current calls.busy
  have kept : ∀ id, Live system.scheduler id ∧ id ≠ task.id → Live { system.scheduler with
      tasks := (system.scheduler.tasks.modify me Scheduler.exit).map (abort task.id) } id := by
    rintro _ ⟨live, different⟩
    refine live_of_map lookup ids (fun other old oldFound sameId present => ?_) live
    by_cases same : me = other
    · subst same
      rw [calls.current.2] at oldFound
      cases oldFound
      exact absurd sameId.symm different
    · rw [if_neg same]
      unfold abort
      split
      · rename_i owes
        simp only [owed, Bool.and_eq_true, beq_iff_eq] at owes
        rw [answer_eq _ _ owes.1.1]
        simp
      · exact present
  refine consistent.of_call calls _ rfl lookup ids exclusive kept ?_
    fun other old away otherFound => ?_
  · rw [if_pos rfl, abort_exit]
    exact ⟨by rintro ⟨⟩, by simp [Scheduler.exit], by rintro ⟨⟩, fun sends => absurd rfl sends,
      by rintro ⟨⟩⟩
  · rw [if_neg (Ne.symm away)]
    have coherent := consistent.coherent other old otherFound
    unfold abort
    split
    · rename_i owes
      simp only [owed, Bool.and_eq_true, beq_iff_eq] at owes
      exact coherent.answer owes.1.1 _
    · rename_i unowedOld
      refine { coherent with waiting := fun waits => ?_ }
      obtain ⟨sends, other, live, empty⟩ := coherent.waiting waits
      refine ⟨sends, other, ⟨live, fun same => unowedOld ?_⟩, empty⟩
      simp [owed, waits, same, empty]

end Calls

/-! ### The task table -/

theorem coherent_of_prepared (prepared : Prepared task) : Coherent live .outside task := by
  obtain ⟨state, _, _, inbox, _⟩ := prepared.fields
  exact coherent_of_quiet rfl (by simp) (fun _ => inbox) (by simp [state]) (by simp [state])

section

variable (consistent : Consistent system)
include consistent

/-- A task that is built takes an identifier nobody has. -/
theorem Consistent.createTask (prepared : Prepared task) (fresh : task.id = system.nextId) :
    Consistent { system with
      nextId := system.nextId + 1, prepared := task :: system.prepared } := by
  refine ⟨consistent.exclusive, consistent.unique, ?_, ?_, ?_, ?_, consistent.idle,
    consistent.coherent⟩
  · intro index other found
    exact Nat.lt_succ_of_lt (consistent.bounded index other found)
  · intro other member
    rcases mem_cons.mp member with rfl | member
    · refine ⟨prepared, by show other.id < system.nextId + 1; omega, ?_, ?_⟩
      · exact consistent.unborn other.id (Nat.le_of_eq fresh.symm)
      · intro index old found
        have below := consistent.bounded index old found
        omega
    · obtain ⟨ready, below, rest⟩ := consistent.built other member
      exact ⟨ready, Nat.lt_succ_of_lt below, rest⟩
  · refine nodup_cons.mpr ⟨?_, consistent.distinct⟩
    intro member
    obtain ⟨other, built, _⟩ := mem_map.mp member
    have below := (consistent.built other built).2.1
    omega
  · intro id above
    exact consistent.unborn id (Nat.le_of_succ_le above)

/-- Adding a built task keeps the invariant: only a slot of an exited task is reused, and
nobody waits for an exited task. -/
theorem Consistent.addTask (built : task ∈ system.prepared) :
    Consistent { system with
      scheduler := system.scheduler.addTask task, prepared := system.prepared.erase task } := by
  obtain ⟨prepared, below, outside, apart⟩ := consistent.built task built
  obtain ⟨slot, added, free, elsewhere⟩ := addTask_task system.scheduler task
  have cpus := addTask_cpus system.scheduler task
  have exclusive := consistent.exclusive.addTask prepared
  generalize system.scheduler.addTask task = scheduler at *
  have origin := fun {index other} => @origin_of_slot _ _ index slot task other added elsewhere
  have kept : ∀ id, Live system.scheduler id → Live scheduler id := by
    rintro id ⟨index, other, found, same, alive⟩
    refine ⟨index, other, ?_, same, alive⟩
    rw [elsewhere index]
    · exact found
    · rintro rfl
      exact alive (free other found).1
  have gone : ∀ other ∈ system.prepared.erase task, other.id ≠ task.id := by
    intro other member same
    have nodup : system.prepared.Nodup := List.Nodup.of_map _ consistent.distinct
    have other_eq := inj_on_of_nodup_map consistent.distinct
      (mem_of_mem_erase member) built same
    subst other_eq
    exact (List.Nodup.not_mem_erase nodup) member
  refine ⟨exclusive, ?_, ?_, ?_, ?_, consistent.unborn, ?_, ?_⟩
  · intro first second left right leftFound rightFound same
    rcases origin leftFound with ⟨rfl, rfl⟩ | ⟨_, leftOld⟩ <;>
      rcases origin rightFound with ⟨rfl, rfl⟩ | ⟨_, rightOld⟩
    · rfl
    · exact absurd same.symm (apart second right rightOld)
    · exact absurd same (apart first left leftOld)
    · exact consistent.unique first second left right leftOld rightOld same
  · intro index other found
    rcases origin found with ⟨_, rfl⟩ | ⟨_, old⟩
    · exact below
    · exact consistent.bounded index other old
  · intro other member
    obtain ⟨ready, otherBelow, otherOutside, otherApart⟩ :=
      consistent.built other (mem_of_mem_erase member)
    refine ⟨ready, otherBelow, otherOutside, fun index old found => ?_⟩
    rcases origin found with ⟨_, rfl⟩ | ⟨_, oldFound⟩
    · exact Ne.symm (gone other member)
    · exact otherApart index old oldFound
  · exact consistent.distinct.sublist (List.Sublist.map _ erase_sublist)
  · intro cpu idle registered found
    have registered : (scheduler.cpus cpu).registered = true := registered
    have found : scheduler.tasks[(scheduler.cpus cpu).idleIdx]? = some idle := found
    rw [cpus] at registered found
    rcases origin found with ⟨_, rfl⟩ | ⟨_, old⟩
    · exact outside
    · exact consistent.idle cpu idle registered old
  · intro index other found
    rcases origin found with ⟨_, rfl⟩ | ⟨_, old⟩
    · rw [outside]
      exact coherent_of_prepared prepared
    · exact (consistent.coherent index other old).mono kept

theorem Consistent.collectExited :
    Consistent { system with scheduler := system.scheduler.collectExited.2 } := by
  have fields : ∀ index task,
      (collected system.scheduler index task).id = task.id ∧
      (collected system.scheduler index task).state = task.state ∧
      (collected system.scheduler index task).inbox = task.inbox ∧
      (collected system.scheduler index task).reply = task.reply ∧
      (collected system.scheduler index task).waitFor = task.waitFor ∧
      (collected system.scheduler index task).onCpu = task.onCpu := by
    intro index task
    unfold collected
    split <;> exact ⟨rfl, rfl, rfl, rfl, rfl, rfl⟩
  refine consistent.of_map (collected system.scheduler) (collectExited_task system.scheduler)
    (fun index task => (fields index task).1) consistent.exclusive.collectExited
    (fun _ => ⟨rfl, rfl⟩) rfl rfl (fun _ _ => rfl) consistent.idle fun index task found => ?_
  have kept : ∀ id, Live system.scheduler id → Live system.scheduler.collectExited.2 id := by
    intro id
    refine live_of_map (collectExited_task system.scheduler)
      (fun index task => (fields index task).1) fun index task _ _ alive => ?_
    rw [(fields index task).2.1]
    exact alive
  obtain ⟨id, state, inbox, reply, waitFor, onCpu⟩ := fields index task
  have coherent := (consistent.coherent index task found).mono kept
  refine coherent.change ⟨id, reply, waitFor⟩ (Or.inl state) rfl Iff.rfl ?_ ?_
  · rw [state, inbox]
    exact coherent.inbox
  · rw [state, onCpu]
    exact coherent.checking

/-! ### Every reachable system -/

section

variable (calls : Calls system cpu me task pc)
include calls

/-- A caller that keeps its state and reply slot and moves outside the calls keeps the
invariant. -/
theorem Consistent.leave (open_ : pc ≠ .exiting) (awake : task.state ≠ .waitingReply)
    (change : TaskControlBlock → TaskControlBlock) (ids : ∀ task, (change task).id = task.id)
    (exclusive : Exclusive (system.scheduler.modifyTask me change))
    (state : (change task).state = task.state)
    (inbox : task.inbox = [] → (change task).inbox = []) :
    Consistent (system.goto (system.scheduler.modifyTask me change) task.id .outside) := by
  have alive : (change task).state ≠ .exited := by
    rw [state]
    exact consistent.caller_alive calls open_
  refine consistent.of_self calls change ids exclusive alive ?_
  refine coherent_of_quiet rfl (by simp) ?_ alive (by rw [state]; exact awake)
  rw [state]
  exact fun waits => inbox ((consistent.caller calls).inbox waits)

/-- A caller outside a send that takes a request keeps the invariant. -/
theorem Consistent.taken {rest : List Rqb} (start : pc = .outside ∨ pc = .receiveTake)
    (queued : task.inbox = msg :: rest) :
    Consistent (system.goto
      (system.scheduler.modifyTask me ({ · with inbox := rest })) task.id .outside) := by
  have quiet : pc.sendingTo = none := by rcases start with rfl | rfl <;> rfl
  have open_ : pc ≠ .exiting := by rcases start with rfl | rfl <;> simp
  have exclusive := consistent.exclusive.modify_current calls.current
    ({ · with inbox := rest }) rfl rfl rfl rfl id id
  refine consistent.leave calls open_ ((consistent.caller calls).not_sending quiet) _
    (fun _ => rfl) exclusive rfl fun empty => ?_
  rw [queued] at empty
  cases empty

/-- A caller outside a send that blocks at a point of its own call keeps the invariant. -/
theorem Consistent.parked (quiet : moved.sendingTo = none) (stays : moved ≠ .exiting)
    (change : TaskControlBlock → TaskControlBlock) (ids : ∀ task, (change task).id = task.id)
    (state : (change task).state = .waitingRqb ∨ (change task).state = .sleeping)
    (inbox : (change task).state = .waitingRqb → (change task).inbox = [])
    (fields : (change task).onCpu = task.onCpu ∧ (change task).pinnedCpu = task.pinnedCpu ∧
      (change task).priority = task.priority ∧ (change task).reaped = task.reaped) :
    Consistent (system.goto (system.scheduler.modifyTask me change) task.id moved) := by
  obtain ⟨onCpu, pinned, priority, reaped⟩ := fields
  have other : ∀ {wrong : TaskState}, wrong ≠ .waitingRqb → wrong ≠ .sleeping →
      (change task).state ≠ wrong := by
    rintro _ first second rfl
    exact state.elim first second
  have exclusive := consistent.exclusive.modify_current calls.current change onCpu pinned priority
    reaped (fun running => absurd running (other (by decide) (by decide)))
    fun exited => absurd exited (other (by decide) (by decide))
  refine consistent.of_self calls change ids exclusive (other (by decide) (by decide)) ?_
  exact coherent_of_quiet quiet stays inbox (other (by decide) (by decide))
    (other (by decide) (by decide))

end

/-- Every turn keeps the invariant. -/
theorem Consistent.turn {action : Action} {outcome : Outcome}
    (turn : Turn system action outcome next)
    (prepared : ∀ task, action = .createTask task → Prepared task) : Consistent next := by
  cases turn with
  | interrupt ticked => exact consistent.onTick ticked (fun _ => Or.inl rfl) fun _ => rfl
  | @yield cpu sp ipiAvailable me task resumed ticking current resumes ticked =>
    refine consistent.onTick ticked (fun id => ?_) fun inactive => ?_
    · by_cases same : id = task.id
      · subst same
        refine Or.inr ⟨me, task, current, rfl, ?_⟩
        rw [update_self, resumes]
      · exact Or.inl (update_of_ne same _ _)
    · rcases inactive with unregistered | empty
      · rw [consistent.exclusive.registered current.1] at unregistered
        cases unregistered
      · have found := current.2
        rw [empty] at found
        cases found
  | createTask fresh _ => exact consistent.createTask (prepared _ rfl) fresh
  | addTask built => exact consistent.addTask built
  | collectExited => exact consistent.collectExited
  | accepted calls different found targetId alive =>
    exact consistent.accepted calls different found targetId alive
  | refused _ _ => exact consistent
  | @returned cpu me task receiver reply calls replied =>
    have exclusive := consistent.exclusive.modify_current calls.current
      ({ · with reply := none }) rfl rfl rfl rfl id id
    refine consistent.leave calls (by simp) ?_ _ (fun _ => rfl) exclusive rfl id
    intro waits
    rw [((consistent.caller calls).waiting waits).2.2.2] at replied
    cases replied
  | spurious calls empty => exact absurd empty (consistent.caller_replied calls)
  | received calls start queued => exact consistent.taken calls start queued
  | blocked calls start empty =>
    exact consistent.parked calls rfl (by simp) _ (fun _ => rfl) (Or.inl rfl) (fun _ => empty)
      ⟨rfl, rfl, rfl, rfl⟩
  | tried calls queued => exact consistent.taken calls (Or.inl rfl) queued
  | triedEmpty _ => exact consistent
  | replied calls found _ waiting _ _ _ => exact consistent.replied calls found waiting
  | unreplied _ _ => exact consistent
  | sleep calls => exact consistent.move calls rfl (by simp) rfl (by simp)
  | sleepTest calls next =>
    rcases next with rfl | rfl
    · exact consistent.move calls rfl (by simp) rfl (by simp)
    · exact consistent.move calls rfl (by simp) rfl (by simp)
  | sleepCall calls =>
    refine consistent.parked calls rfl (by simp) _ (fun _ => rfl) (Or.inr rfl) (fun waits => ?_)
      ⟨rfl, rfl, rfl, rfl⟩
    cases waits
  | exit calls => exact consistent.exit calls

end

theorem BootSystem.boot (boot : BootSystem system) : Boot system.scheduler := by
  induction boot with
  | new => exact .new
  | register _ cpu hwId fresh _ ih =>
    exact .register ih cpu hwId _ fresh

/-- The boot tasks are running, below the counter, and all outside the calls. -/
theorem BootSystem.tasks (boot : BootSystem system) :
    system.prepared = [] ∧ (∀ id, system.pc id = .outside) ∧
      (∀ index task, system.scheduler.tasks[index]? = some task →
        task.id = index + 1 ∧ task.state = .running) ∧
      system.nextId = system.scheduler.tasks.length + 1 := by
  induction boot with
  | new =>
    refine ⟨rfl, fun _ => rfl, ?_, rfl⟩
    intro index task found
    exact absurd found (by simp [Scheduler.new])
  | @register system _ cpu hwId _ _ ih =>
    obtain ⟨prepared, outside, tasks, nextId⟩ := ih
    refine ⟨prepared, outside, ?_, ?_⟩
    · intro index task found
      rcases concat_cases found with old | ⟨rfl, rfl⟩
      · exact tasks index task old
      · exact ⟨nextId, rfl⟩
    · simp [registerCpu, nextId]

/-- The boot tasks are the adopted contexts of their CPUs. -/
theorem BootSystem.adopted (boot : BootSystem system) :
    ∀ (index : Nat) task, system.scheduler.tasks[index]? = some task →
      ∃ id cpu, task = .adoptCurrent id priorityIdle cpu := by
  induction boot with
  | new => exact fun index task found => absurd found (by simp [Scheduler.new])
  | @register system _ cpu hwId _ _ ih =>
    intro index task found
    rcases concat_cases found with old | ⟨_, rfl⟩
    · exact ih index task old
    · exact ⟨_, _, rfl⟩

theorem BootSystem.consistent (boot : BootSystem system) : Consistent system := by
  obtain ⟨prepared, outside, tasks, _⟩ := boot.tasks
  refine ⟨boot.boot.exclusive, ?_, ?_, ?_, ?_, fun id _ => outside id,
    fun _ task _ _ => outside task.id, ?_⟩
  · intro first second task other left right _
    have leftId := (tasks first task left).1
    have rightId := (tasks second other right).1
    omega
  · intro index task found
    have below := (List.getElem?_eq_some_iff.mp found).1
    have id := (tasks index task found).1
    omega
  · rw [prepared]
    intro task member
    cases member
  · rw [prepared]
    exact nodup_nil
  · intro index task found
    rw [outside]
    have running := (tasks index task found).2
    refine coherent_of_quiet rfl (by simp) ?_ (by simp [running]) (by simp [running])
    intro waits
    rw [running] at waits
    cases waits

theorem consistent_of_reachable (reachable : Reachable kernel system) : Consistent system := by
  refine Reachable.invariant Consistent ?_ ?_ reachable
  · intro _ boot
    exact BootSystem.consistent boot
  · rintro _ _ _ _ consistent ⟨prepared, _, acted⟩
    exact consistent.turn (System.turn_of_act acted) prepared

/-- Identifiers fit in 32 bits. -/
theorem nextId_lt_of_reachable (reachable : Reachable kernel system) : system.nextId < 2 ^ 32 := by
  refine reachable.invariant (fun system => system.nextId < 2 ^ 32) ?_ ?_
  · intro _ boot
    induction boot with
    | new => exact (by decide : 1 < 2 ^ 32)
    | register _ _ _ _ room => exact room
  · rintro _ _ _ _ below ⟨_, _, acted⟩
    cases System.turn_of_act acted with
    | createTask _ room => exact room
    | _ => exact below

/-- No wake-up is lost and no task waits on a dead one: a task that waits for a request has
none queued, one that waits for a reply has none and waits for another task that is alive, and
a sender that is back from its yield finds its reply. -/
structure NoLostWakeup (system : System) : Prop where
  receiving : ∀ (index : Nat) (task : TaskControlBlock),
    system.scheduler.tasks[index]? = some task → task.state = .waitingRqb → task.inbox = []
  replying : ∀ (index : Nat) (task : TaskControlBlock),
    system.scheduler.tasks[index]? = some task → task.state = .waitingReply →
    task.reply = none ∧ ∃ (other : Nat) (receiver : TaskControlBlock), other ≠ index ∧
      system.scheduler.tasks[other]? = some receiver ∧ receiver.id = task.waitFor ∧
      receiver.id ≠ task.id ∧ receiver.state ≠ .exited
  full : ∀ (index : Nat) task,
    system.scheduler.tasks[index]? = some task → task.reply ≠ none → task.state ≠ .waitingReply
  rechecked : ∀ cpu task receiver,
    system.caller cpu = some task → system.pc task.id = .sendCheck receiver →
    ∃ reply next, system.scheduler.recheckReply cpu = some (some reply, next)

theorem noLostWakeup_of_reachable (reachable : Reachable kernel system) : NoLostWakeup system := by
  have consistent := consistent_of_reachable reachable
  refine ⟨?_, ?_, ?_, ?_⟩
  · intro index task found
    exact (consistent.coherent index task found).inbox
  · intro index task found waits
    obtain ⟨_, different, ⟨other, receiver, present, same, alive⟩, empty⟩ :=
      (consistent.coherent index task found).waiting waits
    rw [← same] at different
    exact ⟨empty, other, receiver, places_ne present found fun equal => different (equal ▸ rfl),
      present, same, different, alive⟩
  · intro index task found replied waits
    exact replied ((consistent.coherent index task found).waiting waits).2.2.2
  · intro _ _ _ calling checking
    obtain ⟨me, calls⟩ := System.caller_some calling
    rw [checking] at calls
    obtain ⟨reply, replied⟩ := Option.ne_none_iff_exists'.mp (consistent.caller_replied calls)
    refine ⟨reply, system.scheduler.modifyTask me ({ · with reply := none }), ?_⟩
    simp [recheckReply, currentIdx, calls.current.1, calls.current.2, replied]

/-! ### A request on two CPUs -/

/-- The system after an action; the system itself where the action is not possible. -/
def System.after (system : System) (action : Action) : System :=
  ((system.act action).map Prod.snd).getD system

theorem step_after (action : Action) (prepared : ∀ task, action = .createTask task → Prepared task)
    (possible : (system.act action).isSome = true) :
    kernel.step system action (system.after action) := by
  obtain ⟨⟨outcome, _⟩, acted⟩ := Option.isSome_iff_exists.mp possible
  refine ⟨prepared, outcome, ?_⟩
  simp [System.after, acted]

theorem reachable_after (reachable : Reachable kernel system) (action : Action)
    (prepared : ∀ task, action = .createTask task → Prepared task)
    (possible : (system.act action).isSome = true) : Reachable kernel (system.after action) :=
  .step reachable action (step_after action prepared possible)

/-- Two CPUs and two tasks, task 3 running on the first CPU and task 4 on the second. -/
def twoTasks : System :=
  let booted : System := ⟨(Scheduler.new.registerCpu 0 10 1).registerCpu 1 11 2, 3, [],
    fun _ => .outside⟩
  let client := TaskControlBlock.new 3 ⟨0x1000, 0, 0x8000⟩ priorityDefault 0xA0
  let server := TaskControlBlock.new 4 ⟨0x10000, 0, 0x8000⟩ priorityDefault 0xA0
  let created := (booted.after (.createTask client)).after (.createTask server)
  let added := (created.after (.addTask client)).after (.addTask server)
  (added.after (.interrupt 0 0x500 true true)).after (.interrupt 1 0x600 true true)

theorem twoTasks_reachable : Reachable kernel twoTasks := by
  have booted : BootSystem ⟨(Scheduler.new.registerCpu 0 10 1).registerCpu 1 11 2, 3, [],
      fun _ => .outside⟩ :=
    .register (.register .new 0 10 rfl (by decide)) 1 11 rfl (by decide)
  have client := reachable_after (.init booted)
    (.createTask (.new 3 ⟨0x1000, 0, 0x8000⟩ priorityDefault 0xA0))
    (by rintro _ ⟨⟩; exact .kernel ..) rfl
  have server := reachable_after client
    (.createTask (.new 4 ⟨0x10000, 0, 0x8000⟩ priorityDefault 0xA0))
    (by rintro _ ⟨⟩; exact .kernel ..) rfl
  have clientAdded := reachable_after server
    (.addTask (.new 3 ⟨0x1000, 0, 0x8000⟩ priorityDefault 0xA0)) (by simp) rfl
  have serverAdded := reachable_after clientAdded
    (.addTask (.new 4 ⟨0x10000, 0, 0x8000⟩ priorityDefault 0xA0)) (by simp) rfl
  exact reachable_after (reachable_after serverAdded (.interrupt 0 0x500 true true) (by simp) rfl)
    (.interrupt 1 0x600 true true) (by simp) rfl

/-- Task 3 has sent a request and blocks; no wake-up is lost. -/
theorem noLostWakeup_twoTasks :
    ((twoTasks.after (.send 0 4 Rqb.new)).scheduler.tasks[2]?.map
      TaskControlBlock.state = some .waitingReply) ∧
      NoLostWakeup (twoTasks.after (.send 0 4 Rqb.new)) :=
  ⟨rfl, noLostWakeup_of_reachable
    (reachable_after twoTasks_reachable (.send 0 4 Rqb.new) (by simp) rfl)⟩

end Mmurtl.Scheduler

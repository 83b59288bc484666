/-
This file sums up what an action does to the tasks of the table: their inboxes, whether
they have exited, and what they own.

An action carries every task over with its inbox, except in five cases. A request that is
accepted queues one message, a request that is taken removes one, an exit empties the inbox
of the task that exits, the reaper takes what exited tasks own, and a task that is added takes
the slot of a released one. Properties of whole histories are proved from these six cases.
-/

import Mmurtl.Scheduler.Waiting

namespace Mmurtl.Scheduler

open Transition

variable {inbox : Nat → TaskControlBlock → List Rqb} {scheduler : Scheduler}
  {index receiver me : Nat} {change : TaskControlBlock → TaskControlBlock}
  {task : TaskControlBlock} {cpu : CpuIndex} {action : Action} {msg : Rqb}

/-! ### Tasks carried over -/

/-- A task after an action, with another inbox: it is the same task, it has exited if it had,
and it owns what it owned. -/
structure Carried (inbox : List Rqb) (old new : TaskControlBlock) : Prop where
  id : new.id = old.id
  inbox : new.inbox = inbox
  exited : new.state = .exited ↔ old.state = .exited
  reaped : new.reaped = old.reaped
  owns : reapable new = reapable old

/-- Every task of the table is carried over, each with its own inbox. -/
def CarriedAll (inbox : Nat → TaskControlBlock → List Rqb) (scheduler next : Scheduler) : Prop :=
  ∀ index, Option.Rel (fun old new => Carried (inbox index old) old new)
    scheduler.tasks[index]? next.tasks[index]?

theorem Carried.refl (task : TaskControlBlock) : Carried task.inbox task task :=
  ⟨rfl, rfl, Iff.rfl, rfl, rfl⟩

theorem carriedAll_of_map {next : Scheduler} (change : Nat → TaskControlBlock → TaskControlBlock)
    (tasks : ∀ index, next.tasks[index]? = scheduler.tasks[index]?.map (change index))
    (carried : ∀ index task, scheduler.tasks[index]? = some task →
      Carried (inbox index task) task (change index task)) : CarriedAll inbox scheduler next := by
  intro index
  rw [tasks index]
  exact rel_map (carried index)

theorem CarriedAll.refl (scheduler : Scheduler) :
    CarriedAll (fun _ task => task.inbox) scheduler scheduler :=
  carriedAll_of_map (fun _ task => task) (fun _ => Option.map_id_apply.symm)
    fun _ task _ => Carried.refl task

/-- Changing one task that is carried over carries all of them over. -/
theorem carriedAll_modifyTask (carried : ∀ task, scheduler.tasks[index]? = some task →
      Carried (inbox index task) task (change task))
    (others : ∀ other task, other ≠ index → inbox other task = task.inbox) :
    CarriedAll inbox scheduler (scheduler.modifyTask index change) := by
  refine carriedAll_of_map (fun other task => if index = other then change task else task)
    (scheduler.modifyTask_map index change) fun other task found => ?_
  by_cases same : index = other
  · subst same
    rw [if_pos rfl]
    exact carried task found
  · rw [if_neg same, others other task (Ne.symm same)]
    exact Carried.refl task

/-- A task of the table after an action that carries every task over. -/
theorem CarriedAll.after {next : Scheduler} (all : CarriedAll inbox scheduler next)
    (found : scheduler.tasks[index]? = some task) :
    ∃ new, next.tasks[index]? = some new ∧ Carried (inbox index task) task new :=
  (rel_some_left (all index) found :)

theorem CarriedAll.before {next : Scheduler} (all : CarriedAll inbox scheduler next)
    (found : next.tasks[index]? = some task) :
    ∃ old, scheduler.tasks[index]? = some old ∧ Carried (inbox index old) old task :=
  rel_some_right (all index) found

/-! ### The changes of one task -/

theorem Carried.setAside (scheduler : Scheduler) (cpu : CpuIndex) (sp : UInt64) (timer : Bool)
    (index : Nat) (task : TaskControlBlock) :
    Carried task.inbox task (scheduler.setAside cpu sp timer index task) := by
  obtain ⟨id, inbox, _⟩ := setAside_fields scheduler cpu sp timer index task
  refine ⟨id, inbox, setAside_exited .., (setAside_kept ..).2.2, ?_⟩
  unfold Scheduler.setAside save wake
  split <;> split <;> rfl

/-- A task that is made ready out of another state than the exited one is carried over. -/
theorem Carried.rouse {expected : TaskState} (alive : expected ≠ .exited)
    (task : TaskControlBlock) : Carried task.inbox task (rouse expected task) := by
  unfold Scheduler.rouse
  split
  · rename_i same
    refine ⟨rfl, rfl, ?_, rfl, rfl⟩
    rw [same]
    exact ⟨nofun, fun exited => absurd exited alive⟩
  · exact Carried.refl task

theorem Carried.deliver (msg : Rqb) (task : TaskControlBlock) :
    Carried (task.inbox ++ [msg]) task (deliver msg task) := by
  have roused := Carried.rouse (show TaskState.waitingRqb ≠ .exited from nofun) (enqueue msg task)
  exact ⟨roused.id, roused.inbox, roused.exited, roused.reaped, roused.owns⟩

theorem Carried.answer (msg : Rqb) (task : TaskControlBlock) :
    Carried task.inbox task (answer msg task) := by
  have roused := Carried.rouse (show TaskState.waitingReply ≠ .exited from nofun)
    { task with reply := some msg }
  exact ⟨roused.id, roused.inbox, roused.exited, roused.reaped, roused.owns⟩

theorem Carried.abort (exiting : Nat) (task : TaskControlBlock) :
    Carried task.inbox task (abort exiting task) := by
  unfold Scheduler.abort
  split
  · exact Carried.answer _ task
  · exact Carried.refl task

/-! ### The six effects -/

/-- What an action does to the tasks of the table. -/
inductive Effect (system : System) : Action → System → Prop where
  /-- Every task is carried over with its inbox. -/
  | kept {action next}
      (unposted : ∀ cpu receiver msg, action = .send cpu receiver msg →
        ∃ status, system.scheduler.postRequest cpu receiver msg =
          some (.error status, system.scheduler))
      (untaken : ∀ cpu, (action = .receive cpu → ∃ after,
          system.scheduler.takeRequest cpu true = some (none, after)) ∧
        (action = .tryReceive cpu → ∃ after,
          system.scheduler.takeRequest cpu false = some (none, after)))
      (other : (∀ cpu, action ≠ .exit cpu) ∧ (∀ task, action ≠ .addTask task) ∧
        action ≠ .collectExited)
      (table : CarriedAll (fun _ task => task.inbox) system.scheduler next.scheduler) :
      Effect system action next
  /-- A request is accepted. -/
  | posted {cpu receiver msg next me sender index target kick after}
      (calls : Calls system cpu me sender .outside)
      (accepted : system.scheduler.postRequest cpu receiver msg = some (.ok kick, after))
      (found : system.scheduler.tasks[index]? = some target) (targetId : target.id = receiver)
      (alive : target.state ≠ .exited) (room : target.inbox.length < inboxCapacity)
      (table : CarriedAll (fun other task => if other = index then
        task.inbox ++ [msg.address sender.id receiver] else task.inbox)
        system.scheduler next.scheduler) :
      Effect system (.send cpu receiver msg) next
  /-- A request is taken. -/
  | taken {action cpu blocking next me task msg rest pc after}
      (label : action = .receive cpu ∧ blocking = true ∨
        action = .tryReceive cpu ∧ blocking = false)
      (calls : Calls system cpu me task pc) (start : pc = .outside ∨ pc = .receiveTake)
      (took : system.scheduler.takeRequest cpu blocking = some (some msg, after))
      (queued : task.inbox = msg :: rest)
      (table : CarriedAll (fun other task => if other = me then rest else task.inbox)
        system.scheduler next.scheduler) :
      Effect system action next
  /-- A task exits. -/
  | exited {cpu next me task} (calls : Calls system cpu me task .outside)
      (marked : next.scheduler.tasks[me]? = some (exit task))
      (table : ∀ other, other ≠ me →
        Option.Rel (fun old new => Carried old.inbox old new)
          system.scheduler.tasks[other]? next.scheduler.tasks[other]?) :
      Effect system (.exit cpu) next
  /-- The reaper takes what exited tasks own. -/
  | collected {next} (taken : next.scheduler = system.scheduler.collectExited.2) :
      Effect system .collectExited next
  /-- A task is added. -/
  | added {task next} (built : task ∈ system.prepared)
      (taken : next.scheduler = system.scheduler.addTask task) :
      Effect system (.addTask task) next

section Effects

variable {system next : System}

/-- A context switch carries every task over. -/
theorem carriedAll_onTick (exclusive : Exclusive scheduler) {sp : UInt64}
    {timer ipiAvailable : Bool} {outcome : TickOutcome}
    (ticked : scheduler.onTick cpu sp timer ipiAvailable = some outcome) :
    CarriedAll (fun _ task => task.inbox) scheduler outcome.scheduler := by
  rcases exclusive.switched ticked with ⟨_, same⟩ | ⟨_, _, _, _, oldFound, task_eq, _,
    alive, _, _, table, _⟩
  · intro index
    rw [same]
    exact CarriedAll.refl _ index
  refine carriedAll_of_map _ table fun index other found => ?_
  have aside := Carried.setAside scheduler cpu sp timer index other
  split
  · rename_i chosen
    subst chosen
    rw [found] at oldFound
    cases oldFound
    rw [task_eq] at alive
    refine ⟨aside.id, aside.inbox, ⟨nofun, fun exited => ?_⟩, aside.reaped, aside.owns⟩
    exact absurd (aside.exited.mpr exited) alive
  · exact aside

/-- An action that neither sends, takes, exits, reaps nor adds, or that is a call which is
refused or finds no request. -/
theorem effect_of_quiet (quiet : match action with
      | .send cpu receiver msg => ∃ status, system.scheduler.postRequest cpu receiver msg =
          some (.error status, system.scheduler)
      | .receive cpu => ∃ after, system.scheduler.takeRequest cpu true = some (none, after)
      | .tryReceive cpu => ∃ after, system.scheduler.takeRequest cpu false = some (none, after)
      | .exit _ | .addTask _ | .collectExited => False
      | _ => True) (table : CarriedAll (fun _ task => task.inbox) system.scheduler next.scheduler) :
    Effect system action next := by
  refine .kept ?_ (fun _ => ⟨?_, ?_⟩) ⟨?_, ?_, ?_⟩ table
  · rintro _ _ _ rfl
    exact quiet
  · rintro rfl
    exact quiet
  · rintro rfl
    exact quiet
  · rintro _ rfl
    exact quiet
  · rintro _ rfl
    exact quiet
  · rintro rfl
    exact quiet

/-- An accepted request queues one message and blocks its sender. -/
theorem carriedAll_posted {sender target : TaskControlBlock}
    (current : scheduler.Current cpu me sender) (alive : sender.state ≠ .exited)
    (different : receiver ≠ sender.id) (found : scheduler.tasks[index]? = some target)
    (targetId : target.id = receiver) :
    CarriedAll (fun other task => if other = index then
        task.inbox ++ [msg.address sender.id receiver] else task.inbox) scheduler
      ((scheduler.modifyTask index
        (deliver (msg.address sender.id receiver))).modifyTask me (block receiver)) := by
  have apart := places_ne found current.2 fun same => different (same ▸ targetId.symm)
  refine carriedAll_of_map _ (request_lookup apart _ _) fun other task here => ?_
  by_cases first : me = other
  · subst first
    rw [if_pos rfl, if_neg (Ne.symm apart)]
    rw [current.2] at here
    cases here
    exact ⟨rfl, rfl, iff_of_false nofun alive, rfl, rfl⟩
  · rw [if_neg first]
    by_cases second : index = other
    · subst second
      rw [if_pos rfl, if_pos rfl]
      exact Carried.deliver _ task
    · rw [if_neg second, if_neg (Ne.symm second)]
      exact Carried.refl task

/-- A send that does not return at once was accepted. -/
theorem postRequest_of_act (acted : system.act (.send cpu receiver msg) = some (.silent, next)) :
    ∃ kick, system.scheduler.postRequest cpu receiver msg = some (.ok kick, next.scheduler) := by
  obtain ⟨_, _, _, acted⟩ := System.caller_outside acted
  obtain ⟨⟨result, _⟩, posted, acted⟩ := Option.bind_eq_some_iff.mp acted
  cases result with
  | ok kick =>
    cases acted
    exact ⟨kick, posted⟩
  | error status => cases acted

/-- What a non-blocking receive returns is what it took. -/
theorem takeRequest_of_act {msg : Option Rqb}
    (acted : system.act (.tryReceive cpu) = some (.tried msg, next)) :
    ∃ after, system.scheduler.takeRequest cpu false = some (msg, after) := by
  obtain ⟨_, _, _, acted⟩ := System.caller_outside acted
  obtain ⟨⟨_, scheduler⟩, took, acted⟩ := Option.bind_eq_some_iff.mp acted
  cases acted
  exact ⟨scheduler, took⟩

theorem takeRequest_of_queued {rest : List Rqb} (current : scheduler.Current cpu me task)
    (queued : task.inbox = msg :: rest) (blocking : Bool) :
    scheduler.takeRequest cpu blocking =
      some (some msg, scheduler.modifyTask me ({ · with inbox := rest })) := by
  simp [takeRequest, currentIdx, current.1, current.2, queued]

theorem takeRequest_of_empty (current : scheduler.Current cpu me task) (empty : task.inbox = []) :
    scheduler.takeRequest cpu true =
      some (none, scheduler.modifyTask me ({ · with state := .waitingRqb })) := by
  simp [takeRequest, currentIdx, current.1, current.2, empty]

/-- Taking a request carries every task over, the caller with one message less. -/
theorem carriedAll_taken (scheduler : Scheduler) (me : Nat) (rest : List Rqb) :
    CarriedAll (fun other task => if other = me then rest else task.inbox) scheduler
      (scheduler.modifyTask me ({ · with inbox := rest })) := by
  refine carriedAll_modifyTask (fun task _ => ?_) fun _ _ other => if_neg other
  exact ⟨rfl, (if_pos rfl).symm, Iff.rfl, rfl, rfl⟩

/-- A caller that has not exited and goes to another state is carried over. -/
theorem carriedAll_current (current : scheduler.Current cpu me task) (alive : task.state ≠ .exited)
    (carried : (change task).id = task.id ∧ (change task).inbox = task.inbox ∧
      (change task).state ≠ .exited ∧ (change task).reaped = task.reaped ∧
      reapable (change task) = reapable task) :
    CarriedAll (fun _ task => task.inbox) scheduler (scheduler.modifyTask me change) := by
  refine carriedAll_modifyTask (fun other here => ?_) fun _ _ _ => rfl
  rw [current.2] at here
  cases here
  obtain ⟨id, inbox, still, reaped, owns⟩ := carried
  exact ⟨id, inbox, iff_of_false still alive, reaped, owns⟩

/-- Every action has one of the six effects. -/
theorem effect_of_act (consistent : Consistent system) {outcome : Outcome}
    (acted : system.act action = some (outcome, next)) : Effect system action next := by
  have turn := System.turn_of_act acted
  cases turn with
  | interrupt ticked =>
    exact effect_of_quiet trivial (carriedAll_onTick consistent.exclusive ticked)
  | yield _ _ ticked =>
    exact effect_of_quiet trivial (carriedAll_onTick consistent.exclusive ticked)
  | createTask _ _ => exact effect_of_quiet trivial (CarriedAll.refl _)
  | addTask built => exact .added built rfl
  | collectExited => exact .collected rfl
  | @accepted cpu receiver msg me sender index target calls different found targetId alive =>
    obtain ⟨_, posted⟩ := postRequest_of_act acted
    rcases postRequest_cases posted with ⟨_, wrong, _⟩ |
      ⟨_, _, other, receiving, _, _, here, hasId, _, room, _, _⟩
    · cases wrong
    · have same := consistent.unique other index receiving target here found
        (hasId.trans targetId.symm)
      subst same
      rw [found] at here
      cases here
      exact .posted calls posted found targetId alive room
        (carriedAll_posted calls.current (consistent.caller_alive calls (by simp)) different found
          targetId)
  | refused calls refused => exact effect_of_quiet ⟨_, refused⟩ (CarriedAll.refl _)
  | returned calls _ =>
    refine effect_of_quiet trivial (carriedAll_modifyTask (fun task _ => ?_) fun _ _ _ => rfl)
    exact ⟨rfl, rfl, Iff.rfl, rfl, rfl⟩
  | spurious calls empty => exact absurd empty (consistent.caller_replied calls)
  | received calls start queued =>
    exact .taken (Or.inl ⟨rfl, rfl⟩) calls start (takeRequest_of_queued calls.current queued true)
      queued (carriedAll_taken _ _ _)
  | @blocked cpu me task pc calls start empty =>
    have open_ : pc ≠ .exiting := by rcases start with rfl | rfl <;> simp
    exact effect_of_quiet ⟨_, takeRequest_of_empty calls.current empty⟩
      (carriedAll_current calls.current (consistent.caller_alive calls open_)
        ⟨rfl, rfl, nofun, rfl, rfl⟩)
  | tried calls queued =>
    exact .taken (Or.inr ⟨rfl, rfl⟩) calls (Or.inl rfl)
      (takeRequest_of_queued calls.current queued false) queued (carriedAll_taken _ _ _)
  | triedEmpty calls =>
    exact effect_of_quiet (takeRequest_of_act acted) (CarriedAll.refl _)
  | replied calls found _ _ _ _ _ =>
    refine effect_of_quiet trivial (carriedAll_modifyTask (fun task _ => ?_) fun _ _ _ => rfl)
    exact Carried.answer _ task
  | unreplied _ _ => exact effect_of_quiet trivial (CarriedAll.refl _)
  | sleep calls => exact effect_of_quiet trivial (CarriedAll.refl _)
  | sleepTest calls _ => exact effect_of_quiet trivial (CarriedAll.refl _)
  | sleepCall calls =>
    exact effect_of_quiet trivial (carriedAll_current calls.current
      (consistent.caller_alive calls (by simp)) ⟨rfl, rfl, nofun, rfl, rfl⟩)
  | @exit cpu me task calls =>
    have lookup := exit_lookup system.scheduler.tasks me task.id
    refine .exited calls ?_ fun other apart => ?_
    · refine (lookup me).trans ?_
      rw [calls.current.2, Option.map_some, if_pos rfl, abort_exit]
    · refine Eq.mpr (congrArg _ (lookup other)) ?_
      cases system.scheduler.tasks[other]? with
      | none => exact .none
      | some old =>
        rw [Option.map_some, if_neg (Ne.symm apart)]
        exact .some (Carried.abort task.id old)

end Effects

end Mmurtl.Scheduler

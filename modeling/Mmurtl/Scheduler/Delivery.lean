/-
This file proves that inboxes deliver requests in order, once each and without loss.

What was posted to a task and what it took are read off the history. As long as the task
has not exited, what was posted is what was taken followed by what is still queued; after
its exit it takes nothing, so what it took stays the beginning of what was posted.
-/

import Mmurtl.Scheduler.Turns
import Mmurtl.Scheduler.Answer

namespace Mmurtl.Scheduler

open Transition List Function

variable {index me target : Nat} {task : TaskControlBlock} {scheduler after : Scheduler}
  {inbox : Nat → TaskControlBlock → List Rqb} {cpu : CpuIndex} {outcome : Outcome} {msg : Rqb}
  {blocking : Bool} {start last : System}

/-! ### Posts and takes -/

/-- The request a move posts to a task: the message given, with the identifiers of the task
that posted it and of the receiver. -/
def postedTo (receiver : Nat) (move : Move System Action) : Option Rqb :=
  match move.label with
  | .send cpu target msg =>
      match move.before.scheduler.postRequest cpu target msg with
      | some (.ok _, _) =>
          if target = receiver then
            (move.before.scheduler.currentId cpu).map fun sender =>
              { msg with senderId := sender, receiverId := receiver }
          else none
      | _ => none
  | _ => none

/-- The request a CPU's current task gets from the scheduler, if it is the given task. -/
def requestOf (receiver : Nat) (scheduler : Scheduler) (cpu : CpuIndex) (blocking : Bool) :
    Option Rqb :=
  if scheduler.currentId cpu = some receiver then (scheduler.takeRequest cpu blocking).bind Prod.fst
  else none

/-- The request a task takes in a move. -/
def takenBy (receiver : Nat) (move : Move System Action) : Option Rqb :=
  match move.label with
  | .receive cpu => requestOf receiver move.before.scheduler cpu true
  | .tryReceive cpu => requestOf receiver move.before.scheduler cpu false
  | _ => none

/-- A move in which a task exits. -/
def Exits (id : Nat) (move : Move System Action) : Prop :=
  ∃ cpu, move.label = .exit cpu ∧ move.before.scheduler.currentId cpu = some id

/-- Everything posted to a task in a history, in order. -/
def posts (receiver : Nat) (moves : List (Move System Action)) : List Rqb :=
  moves.filterMap (postedTo receiver)

/-- Everything a task took in a history, in order. -/
def takes (receiver : Nat) (moves : List (Move System Action)) : List Rqb :=
  moves.filterMap (takenBy receiver)

/-- The inbox of the task with an identifier. -/
def inboxOf (scheduler : Scheduler) (id : Nat) : List Rqb :=
  ((scheduler.tasks.find? fun task => task.id == id).map TaskControlBlock.inbox).getD []

theorem posts_concat (receiver : Nat) (moves : List (Move System Action))
    (move : Move System Action) :
    posts receiver (moves ++ [move]) = posts receiver moves ++ (postedTo receiver move).toList :=
  filterMap_concat ..

theorem takes_concat (receiver : Nat) (moves : List (Move System Action))
    (move : Move System Action) :
    takes receiver (moves ++ [move]) = takes receiver moves ++ (takenBy receiver move).toList :=
  filterMap_concat ..

/-! ### Inboxes -/

section Inboxes

variable {system next : System} {receiver : Nat}

theorem inboxOf_of_found (consistent : Consistent system)
    (found : system.scheduler.tasks[index]? = some task) :
    inboxOf system.scheduler task.id = task.inbox := by
  rw [inboxOf, find_of_unique found fun other candidate place same =>
    consistent.unique other index candidate task place found same]
  rfl

theorem inboxOf_of_absent (absent : ∀ (index : Nat) task, scheduler.tasks[index]? = some task →
      task.id ≠ receiver) : inboxOf scheduler receiver = [] := by
  have missing : (scheduler.tasks.find? fun task => task.id == receiver) = none := by
    rw [find?_eq_none]
    intro task member
    obtain ⟨index, found⟩ := getElem?_of_mem member
    simpa using absent index task found
  rw [inboxOf, missing]
  rfl

/-- A task is in the table, or nobody in it has its identifier. -/
theorem present_or_absent (scheduler : Scheduler) (receiver : Nat) :
    (∃ (index : Nat) (task : TaskControlBlock), scheduler.tasks[index]? = some task ∧
        task.id = receiver) ∨
      ∀ (index : Nat) (task : TaskControlBlock), scheduler.tasks[index]? = some task →
        task.id ≠ receiver := by
  by_cases present : ∃ (index : Nat) (task : TaskControlBlock),
      scheduler.tasks[index]? = some task ∧ task.id = receiver
  · exact Or.inl present
  · exact Or.inr fun index task found same => present ⟨index, task, found, same⟩

/-- The inbox of a task that is carried over. -/
theorem inboxOf_of_carried (consistentAfter : Consistent next)
    (table : CarriedAll inbox system.scheduler next.scheduler)
    (found : system.scheduler.tasks[index]? = some task) :
    inboxOf next.scheduler task.id = inbox index task := by
  obtain ⟨_, there, carried⟩ := table.after found
  rw [← carried.id, inboxOf_of_found consistentAfter there, carried.inbox]

/-- The inbox of a task that keeps its place and its inbox. -/
theorem inboxOf_eq (consistent : Consistent system) (consistentAfter : Consistent next)
    (after : ∀ (index : Nat) (task : TaskControlBlock), system.scheduler.tasks[index]? = some task →
      task.id = receiver → ∃ new, next.scheduler.tasks[index]? = some new ∧
        new.id = task.id ∧ new.inbox = task.inbox)
    (before : ∀ (index : Nat) task, next.scheduler.tasks[index]? = some task →
      task.id = receiver → ∃ old, system.scheduler.tasks[index]? = some old ∧ old.id = receiver) :
    inboxOf next.scheduler receiver = inboxOf system.scheduler receiver := by
  rcases present_or_absent system.scheduler receiver with ⟨index, task, found, rfl⟩ | absent
  · obtain ⟨_, there, id, inbox⟩ := after index task found rfl
    rw [← id, inboxOf_of_found consistentAfter there, inbox, id, inboxOf_of_found consistent found]
  · rw [inboxOf_of_absent absent]
    refine inboxOf_of_absent fun index task there same => ?_
    obtain ⟨old, found, oldId⟩ := before index task there same
    exact absent index old found oldId

/-- The inbox of a task after an action that carries every task over. -/
theorem inboxOf_carried (consistent : Consistent system) (consistentAfter : Consistent next)
    (table : CarriedAll inbox system.scheduler next.scheduler)
    (same : ∀ (index : Nat) task, system.scheduler.tasks[index]? = some task →
      task.id = receiver → inbox index task = task.inbox) :
    inboxOf next.scheduler receiver = inboxOf system.scheduler receiver := by
  refine inboxOf_eq consistent consistentAfter (fun index task found id => ?_)
    fun index task there id => ?_
  · obtain ⟨new, there, carried⟩ := table.after found
    exact ⟨new, there, carried.id, carried.inbox.trans (same index task found id)⟩
  · obtain ⟨old, found, carried⟩ := table.before there
    exact ⟨old, found, carried.id.symm.trans id⟩

end Inboxes

/-! ### Exits -/

section Exits

variable {system next : System} {id : Nat}

theorem goto_exiting {pc moved : Pc} (calls : Calls system cpu me task pc) (open_ : pc ≠ .exiting)
    (stays : moved ≠ .exiting) (scheduler : Scheduler) :
    (system.goto scheduler task.id moved).pc id = .exiting ↔ system.pc id = .exiting := by
  show Function.update system.pc task.id moved id = .exiting ↔ _
  by_cases same : id = task.id
  · rw [same, update_self, calls.at_pc]
    exact iff_of_false stays open_
  · rw [update_of_ne same]

/-- A task is at the end of its code after an action just if it was before or exits in it. -/
theorem exiting_iff {action : Action} (acted : system.act action = some (outcome, next)) :
    next.pc id = .exiting ↔ system.pc id = .exiting ∨
      ∃ cpu, action = .exit cpu ∧ system.scheduler.currentId cpu = some id := by
  have other : (∀ cpu, action ≠ .exit cpu) → (next.pc id = .exiting ↔ system.pc id = .exiting) →
      (next.pc id = .exiting ↔ system.pc id = .exiting ∨
        ∃ cpu, action = .exit cpu ∧ system.scheduler.currentId cpu = some id) := by
    intro noExit same
    rw [same]
    exact ⟨Or.inl, fun either => either.resolve_right fun ⟨cpu, exits, _⟩ => noExit cpu exits⟩
  cases System.turn_of_act acted with
  | @exit cpu me task calls =>
    show Function.update system.pc task.id .exiting id = .exiting ↔ _
    by_cases same : id = task.id
    · rw [same, update_self]
      exact ⟨fun _ => Or.inr ⟨cpu, rfl, currentId_of_current calls.current⟩, fun _ => rfl⟩
    · rw [update_of_ne same]
      refine ⟨Or.inl, fun either => either.resolve_right ?_⟩
      rintro ⟨_, ⟨⟩, exits⟩
      rw [currentId_of_current calls.current] at exits
      exact same (Option.some.inj exits).symm
  | @yield cpu sp ipiAvailable me task resumed ticking current resumes ticked =>
    refine other nofun ?_
    show Function.update system.pc task.id resumed id = .exiting ↔ _
    by_cases same : id = task.id
    · rw [same, update_self]
      exact (Pc.afterYield_exiting resumes)
    · rw [update_of_ne same]
  | interrupt | createTask | addTask | collectExited | refused | triedEmpty | replied | unreplied =>
    exact other nofun Iff.rfl
  | received calls start | blocked calls start =>
    refine other nofun (goto_exiting calls ?_ (by simp) _)
    rcases start with rfl | rfl <;> exact nofun
  | sleepTest calls moved =>
    refine other nofun (goto_exiting calls (by simp) ?_ _)
    rcases moved with rfl | rfl <;> exact nofun
  | accepted calls | returned calls | spurious calls | tried calls | sleep calls
    | sleepCall calls =>
    exact other nofun (goto_exiting calls (by simp) (by simp) _)

end Exits

/-! ### One action -/

section Step

variable {system next : System} {action : Action} {receiver : Nat}

theorem requestOf_of_current (current : scheduler.Current cpu me task) (blocking : Bool) :
    requestOf receiver scheduler cpu blocking =
      if task.id = receiver then (scheduler.takeRequest cpu blocking).bind Prod.fst else none := by
  rw [requestOf, currentId_of_current current]
  by_cases same : task.id = receiver
  · rw [if_pos same, if_pos (congrArg some same)]
  · rw [if_neg same, if_neg fun equal => same (Option.some.inj equal)]

theorem postedTo_of_accepted {sender : TaskControlBlock} {kick : Option UInt32}
    (current : system.scheduler.Current cpu me sender)
    (accepted : system.scheduler.postRequest cpu target msg = some (.ok kick, after)) :
    postedTo receiver ⟨system, .send cpu target msg, next⟩ =
      if target = receiver then some (msg.address sender.id target) else none := by
  simp only [postedTo, accepted, currentId_of_current current, Option.map_some]
  by_cases same : target = receiver
  · rw [if_pos same, if_pos same, same]
    rfl
  · rw [if_neg same, if_neg same]

theorem requestOf_of_none (none_ : scheduler.takeRequest cpu blocking = some (none, after)) :
    requestOf receiver scheduler cpu blocking = none := by
  rw [requestOf, none_]
  split <;> rfl

theorem takenBy_of_untaken (untaken : ∀ cpu, (action = .receive cpu → ∃ after,
        system.scheduler.takeRequest cpu true = some (none, after)) ∧
      (action = .tryReceive cpu → ∃ after,
        system.scheduler.takeRequest cpu false = some (none, after))) :
    takenBy receiver ⟨system, action, next⟩ = none := by
  cases action with
  | receive cpu =>
    obtain ⟨after, none_⟩ := (untaken cpu).1 rfl
    exact requestOf_of_none none_
  | tryReceive cpu =>
    obtain ⟨_, none_⟩ := (untaken cpu).2 rfl
    exact requestOf_of_none none_
  | _ => rfl

theorem takenBy_of_took
    (label : action = .receive cpu ∧ blocking = true ∨ action = .tryReceive cpu ∧ blocking = false)
    (current : system.scheduler.Current cpu me task)
    (took : system.scheduler.takeRequest cpu blocking = some (some msg, after)) :
    takenBy receiver ⟨system, action, next⟩ = if task.id = receiver then some msg else none := by
  have request : requestOf receiver system.scheduler cpu blocking = _ :=
    requestOf_of_current current blocking
  rw [took] at request
  rcases label with ⟨rfl, rfl⟩ | ⟨rfl, rfl⟩
  · exact request
  · exact request

section

variable (consistent : Consistent system) (consistentAfter : Consistent next)
include consistent consistentAfter

/-- A task that is added to the table has an empty inbox, and takes no slot of a task that
has not exited. -/
theorem inboxOf_added (built : task ∈ system.prepared)
    (taken : next.scheduler = system.scheduler.addTask task)
    (alive : system.pc receiver ≠ .exiting) :
    inboxOf next.scheduler receiver = inboxOf system.scheduler receiver := by
  obtain ⟨slot, added, free, elsewhere⟩ := addTask_task system.scheduler task
  obtain ⟨prepared, _, _, apart⟩ := consistent.built task built
  rw [← taken] at added elsewhere
  by_cases same : task.id = receiver
  · subst same
    rw [inboxOf_of_found consistentAfter added, inboxOf_of_absent apart]
    exact prepared.fields.2.2.2.1
  · refine inboxOf_eq consistent consistentAfter (fun index old found id => ?_)
      fun index new there id => ?_
    · have other : index ≠ slot := by
        rintro rfl
        have exited := (consistent.coherent index old found).exited.mp (free old found).1
        rw [id] at exited
        exact alive exited
      exact ⟨old, (elsewhere index other).trans found, rfl, rfl⟩
    · have other := places_ne there added fun equal => same (equal ▸ id)
      exact ⟨new, (elsewhere index other).symm.trans there, id⟩

/-- The reaper leaves the inboxes alone. -/
theorem inboxOf_collected (taken : next.scheduler = system.scheduler.collectExited.2) :
    inboxOf next.scheduler receiver = inboxOf system.scheduler receiver := by
  have fields := collected_fields system.scheduler
  refine inboxOf_eq consistent consistentAfter (fun index old found id => ?_)
    fun index new there id => ?_
  · refine ⟨_, ?_, (fields index old).1, (fields index old).2⟩
    rw [taken, collectExited_task, found]
    rfl
  · rw [taken, collectExited_task] at there
    obtain ⟨old, found, rfl⟩ := Option.map_eq_some_iff.mp there
    exact ⟨old, found, (fields index old).1.symm.trans id⟩

/-- What a task that has not exited takes was at the head of its inbox; what is posted to it
goes to the end. -/
theorem inboxOf_step (acted : system.act action = some (outcome, next))
    (alive : next.pc receiver ≠ .exiting) :
    inboxOf system.scheduler receiver ++ (postedTo receiver ⟨system, action, next⟩).toList =
      (takenBy receiver ⟨system, action, next⟩).toList ++ inboxOf next.scheduler receiver := by
  obtain ⟨before, unexited⟩ := not_or.mp fun either => alive ((exiting_iff acted).mpr either)
  cases effect_of_act consistent acted with
  | kept unposted untaken _ table =>
    have post : postedTo receiver ⟨system, action, next⟩ = none := by
      cases action with
      | send cpu target msg =>
        obtain ⟨_, refused⟩ := unposted cpu target msg rfl
        simp only [postedTo, refused]
      | _ => rfl
    rw [post, takenBy_of_untaken untaken, inboxOf_carried consistent consistentAfter table
      fun _ _ _ _ => rfl]
    exact append_nil _
  | @posted cpu target msg _ me sender index receiving kick after calls accepted found targetId _ _
      table =>
    rw [postedTo_of_accepted calls.current accepted]
    by_cases same : target = receiver
    · subst targetId same
      rw [if_pos rfl, inboxOf_of_found consistent found,
        inboxOf_of_carried consistentAfter table found, if_pos rfl]
      rfl
    · rw [if_neg same, inboxOf_carried consistent consistentAfter table]
      · exact append_nil _
      · intro other task here id
        exact if_neg (places_ne here found fun equal => same (targetId.symm.trans (equal ▸ id)))
  | @taken _ cpu blocking _ me task msg rest pc after label calls _ took queued table =>
    have post : postedTo receiver ⟨system, action, next⟩ = none := by
      rcases label with ⟨rfl, _⟩ | ⟨rfl, _⟩ <;> rfl
    rw [post, takenBy_of_took label calls.current took]
    by_cases same : task.id = receiver
    · subst same
      rw [if_pos rfl, inboxOf_of_found consistent calls.current.2,
        inboxOf_of_carried consistentAfter table calls.current.2, if_pos rfl, queued]
      exact append_nil _
    · rw [if_neg same, inboxOf_carried consistent consistentAfter table]
      · exact append_nil _
      · intro other old here id
        exact if_neg (places_ne here calls.current.2 fun equal => same (equal ▸ id))
  | @exited cpu _ me task calls marked table =>
    have other : task.id ≠ receiver := fun same =>
      unexited ⟨cpu, rfl, (currentId_of_current calls.current).trans (congrArg some same)⟩
    refine (append_nil _).trans (Eq.symm ?_)
    refine inboxOf_eq consistent consistentAfter (fun index old found id => ?_)
      fun index new there id => ?_
    · have apart := places_ne found calls.current.2 fun same => other (same ▸ id)
      obtain ⟨new, there, carried⟩ := rel_some_left (table index apart) found
      exact ⟨new, there, carried.id, carried.inbox⟩
    · have apart : index ≠ me := by
        refine places_ne there marked ?_
        rintro rfl
        exact other id
      obtain ⟨old, found, carried⟩ := rel_some_right (table index apart) there
      exact ⟨old, found, carried.id.symm.trans id⟩
  | collected taken =>
    refine (append_nil _).trans (Eq.symm ?_)
    exact inboxOf_collected consistent consistentAfter taken
  | added built taken =>
    refine (append_nil _).trans (Eq.symm ?_)
    exact inboxOf_added consistent consistentAfter built taken before

end

/-- A task at the end of its code takes nothing. -/
theorem takenBy_of_exiting (consistent : Consistent system)
    (acted : system.act action = some (outcome, next)) (gone : next.pc receiver = .exiting) :
    takenBy receiver ⟨system, action, next⟩ = none := by
  cases effect_of_act consistent acted with
  | kept _ untaken _ _ => exact takenBy_of_untaken untaken
  | @taken _ cpu blocking _ me task msg rest pc after label calls start took _ _ =>
    rw [takenBy_of_took label calls.current took]
    refine if_neg ?_
    rintro rfl
    rcases (exiting_iff acted).mp gone with before | ⟨_, leaves, _⟩
    · rw [calls.at_pc] at before
      rcases start with rfl | rfl <;> cases before
    · rcases label with ⟨rfl, _⟩ | ⟨rfl, _⟩ <;> cases leaves
  | posted | exited | collected | added => rfl

/-- No inbox holds more than its capacity. -/
def Capped (scheduler : Scheduler) : Prop :=
  ∀ (index : Nat) task, scheduler.tasks[index]? = some task →
    task.inbox.length ≤ inboxCapacity

/-- Where a task of the table comes from after an action: its inbox is empty, it was at its
place and has lost requests at most, or a request is posted to it. -/
inductive Origin (system : System) (index : Nat) (new : TaskControlBlock) : Action → Prop where
  | empty {action : Action} (inbox : new.inbox = []) : Origin system index new action
  | fewer {action old} (found : system.scheduler.tasks[index]? = some old) (id : new.id = old.id)
      (inbox : new.inbox.Sublist old.inbox)
      (stays : ∀ cpu me leaver, action = .exit cpu → system.scheduler.Current cpu me leaver →
        leaver.id ≠ old.id) : Origin system index new action
  | posted {cpu receiver msg me sender target kick after}
      (calls : Calls system cpu me sender .outside)
      (accepted : system.scheduler.postRequest cpu receiver msg = some (.ok kick, after))
      (found : system.scheduler.tasks[index]? = some target) (id : new.id = target.id)
      (targetId : target.id = receiver) (room : target.inbox.length < inboxCapacity)
      (inbox : new.inbox = target.inbox ++ [msg.address sender.id receiver]) :
      Origin system index new (.send cpu receiver msg)

theorem origin_of_act (consistent : Consistent system) {new : TaskControlBlock}
    (acted : system.act action = some (outcome, next))
    (there : next.scheduler.tasks[index]? = some new) : Origin system index new action := by
  cases effect_of_act consistent acted with
  | kept _ _ other table =>
    obtain ⟨old, found, carried⟩ := table.before there
    exact .fewer found carried.id (carried.inbox ▸ .refl _) fun cpu _ _ exits =>
      absurd exits (other.1 cpu)
  | posted calls accepted found targetId _ room table =>
    obtain ⟨old, oldFound, carried⟩ := table.before there
    have inbox := carried.inbox
    split at inbox
    · rename_i here
      subst here
      rw [found] at oldFound
      cases oldFound
      exact .posted calls accepted found carried.id targetId room inbox
    · exact .fewer oldFound carried.id (inbox ▸ .refl _) fun _ _ _ wrong => by cases wrong
  | @taken _ _ _ _ me task _ rest _ _ label calls _ _ queued table =>
    obtain ⟨old, found, carried⟩ := table.before there
    refine .fewer found carried.id ?_ ?_
    · rw [carried.inbox]
      split
      · rename_i here
        rw [here, calls.current.2] at found
        cases found
        exact queued ▸ sublist_cons_self ..
      · exact .refl _
    · rintro cpu me leaver rfl
      rcases label with ⟨wrong, _⟩ | ⟨wrong, _⟩ <;> cases wrong
  | @exited cpu _ me task calls marked table =>
    by_cases here : index = me
    · rw [here, marked] at there
      cases there
      exact .empty rfl
    · obtain ⟨old, found, carried⟩ := rel_some_right (table index here) there
      refine .fewer found carried.id (carried.inbox ▸ .refl _) ?_
      rintro _ other leaver ⟨⟩ current same
      have place := consistent.unique other index leaver old current.2 found same
      exact here (place.symm.trans (current.unique calls.current).1)
  | collected taken =>
    rw [taken, collectExited_task] at there
    obtain ⟨old, found, rfl⟩ := Option.map_eq_some_iff.mp there
    obtain ⟨id, inbox⟩ := collected_fields system.scheduler index old
    exact .fewer found id (inbox ▸ .refl _) fun _ _ _ wrong => by cases wrong
  | @added task _ built taken =>
    obtain ⟨slot, added, _, elsewhere⟩ := addTask_task system.scheduler task
    rw [taken] at there
    by_cases here : index = slot
    · rw [here, added] at there
      cases there
      exact .empty (consistent.built _ built).1.fields.2.2.2.1
    · rw [elsewhere index here] at there
      exact .fewer there rfl (.refl _) fun _ _ _ wrong => by cases wrong

theorem Capped.step (consistent : Consistent system) (capped : Capped system.scheduler)
    (acted : system.act action = some (outcome, next)) : Capped next.scheduler := by
  intro index task there
  cases origin_of_act consistent acted there with
  | empty inbox =>
    rw [inbox]
    exact Nat.zero_le _
  | fewer found _ inbox _ => exact Nat.le_trans inbox.length_le (capped index _ found)
  | posted _ _ _ _ _ room inbox =>
    rw [inbox, length_append, length_singleton]
    exact room

end Step

/-! ### Whole runs -/

/-- In a history, what a task took is the beginning of what was posted to it, in order; what
remains is its inbox until it exits; the inbox is bounded; and a request that is refused
changes nothing. -/
structure Delivered (receiver : Nat) (moves : List (Move System Action)) (last : System) :
    Prop where
  ordered : takes receiver moves <+: posts receiver moves
  remaining : (∀ move ∈ moves, ¬Exits receiver move) →
    posts receiver moves = takes receiver moves ++ inboxOf last.scheduler receiver
  bounded : (inboxOf last.scheduler receiver).length ≤ inboxCapacity
  refused : ∀ cpu target msg status after,
    last.scheduler.postRequest cpu target msg = some (.error status, after) →
    after = last.scheduler

/-- Nothing is queued when the CPUs have registered. -/
theorem BootSystem.inboxes {system : System} (boot : BootSystem system) (index : Nat)
    (task : TaskControlBlock) (found : system.scheduler.tasks[index]? = some task) :
    task.inbox = [] := by
  obtain ⟨_, _, rfl⟩ := boot.adopted index task found
  rfl

/-- What is kept along a run: the account of an inbox whose task is not at the end of its
code, and that only an exit leads there. -/
theorem delivered_run {moves : List (Move System Action)} (receiver : Nat)
    (boot : BootSystem start) (run : Run kernel start moves last) :
    takes receiver moves <+: posts receiver moves ∧ (last.pc receiver ≠ .exiting →
        posts receiver moves = takes receiver moves ++ inboxOf last.scheduler receiver) ∧
      (last.pc receiver = .exiting → ∃ move ∈ moves, Exits receiver move) ∧
      Capped last.scheduler := by
  induction run with
  | nil =>
    obtain ⟨_, outside, tasks, _⟩ := boot.tasks
    have empty := boot.inboxes
    refine ⟨List.nil_prefix, fun _ => ?_, fun gone => ?_, fun index task found => ?_⟩
    · rcases present_or_absent start.scheduler receiver with ⟨index, task, found, rfl⟩ | absent
      · rw [inboxOf_of_found boot.consistent found, empty index task found]
        rfl
      · rw [inboxOf_of_absent absent]
        rfl
    · rw [outside] at gone
      cases gone
    · rw [empty index task found]
      exact Nat.zero_le _
  | @snoc middle next earlier action run step ih =>
    obtain ⟨ordered, remaining, exits, capped⟩ := ih
    have consistent := consistent_of_reachable ((Reachable.init boot).run run)
    have consistentAfter := consistent_of_reachable
      (((Reachable.init boot).run run).step action step)
    obtain ⟨_, _, acted⟩ := step
    have account : next.pc receiver ≠ .exiting →
        posts receiver (earlier ++ [⟨middle, action, next⟩]) =
          takes receiver (earlier ++ [⟨middle, action, next⟩]) ++
            inboxOf next.scheduler receiver := by
      intro alive
      have before : middle.pc receiver ≠ .exiting := fun gone =>
        alive ((exiting_iff acted).mpr (Or.inl gone))
      rw [posts_concat, takes_concat, remaining before, append_assoc, append_assoc,
        inboxOf_step consistent consistentAfter acted alive]
    refine ⟨?_, account, ?_, capped.step consistent acted⟩
    · by_cases gone : next.pc receiver = .exiting
      · rw [posts_concat, takes_concat, takenBy_of_exiting consistent acted gone]
        rw [Option.toList_none, append_nil]
        exact ordered.trans (prefix_append _ _)
      · rw [account gone]
        exact prefix_append _ _
    · intro gone
      rcases (exiting_iff acted).mp gone with before | ⟨cpu, label, current⟩
      · obtain ⟨move, member, leaves⟩ := exits before
        exact ⟨move, mem_append_left _ member, leaves⟩
      · exact ⟨⟨middle, action, next⟩, mem_append_right _ (mem_singleton_self _), cpu,
          label, current⟩

/-- Inbox delivery is in order, bounded, lossless and without duplicates, along every run and
for every receiver. -/
theorem delivered_of_run {start last : System} {moves : List (Move System Action)}
    (boot : BootSystem start) (run : Run kernel start moves last) (receiver : Nat) :
    Delivered receiver moves last := by
  obtain ⟨ordered, remaining, exits, capped⟩ := delivered_run receiver boot run
  refine ⟨ordered, fun stays => remaining fun gone => ?_, ?_, ?_⟩
  · obtain ⟨move, member, leaves⟩ := exits gone
    exact stays move member leaves
  · have consistent := consistent_of_reachable ((Reachable.init boot).run run)
    rcases present_or_absent last.scheduler receiver with ⟨index, task, found, rfl⟩ | absent
    · rw [inboxOf_of_found consistent found]
      exact capped index task found
    · rw [inboxOf_of_absent absent]
      exact Nat.zero_le _
  · intro _ _ _ _ _ posted
    rcases postRequest_cases posted with ⟨_, _, same⟩ |
      ⟨_, _, _, _, _, _, _, _, _, _, ⟨_, wrong⟩, _⟩
    · exact same
    · cases wrong

/-- The moves of a list of actions. -/
def System.moves (system : System) : List Action → List (Move System Action)
  | [] => []
  | action :: rest => ⟨system, action, system.after action⟩ :: (system.after action).moves rest

theorem moves_append (system : System) (first second : List Action) :
    system.moves (first ++ second) =
      system.moves first ++ (first.foldl System.after system).moves second := by
  induction first generalizing system with
  | nil => rfl
  | cons action rest ih => exact congrArg _ (ih _)

/-- Every one of the actions is possible when its turn comes. -/
def System.possible (system : System) : List Action → Bool
  | [] => true
  | action :: rest => (system.act action).isSome && (system.after action).possible rest

theorem run_moves {system : System} {actions : List Action}
    (prepared : ∀ task, .createTask task ∈ actions → Prepared task)
    (possible : system.possible actions = true) :
    Run kernel system (system.moves actions) (actions.foldl System.after system) := by
  induction actions generalizing system with
  | nil => exact .nil system
  | cons action rest ih =>
    obtain ⟨enabled, later⟩ := Bool.and_eq_true_iff.mp possible
    refine .cons (step_after action ?_ enabled) (ih ?_ later)
    · rintro task rfl
      exact prepared task mem_cons_self
    · exact fun task member => prepared task (mem_cons_of_mem _ member)

/-- Two CPUs after they have registered. -/
def twoCpus : System :=
  ⟨(Scheduler.new.registerCpu 0 10 1).registerCpu 1 11 2, 3, [], fun _ => .outside⟩

theorem twoCpus_boot : BootSystem twoCpus :=
  .register (.register .new 0 10 rfl (by decide)) 1 11 rfl (by decide)

def client : TaskControlBlock := .new 3 ⟨0x1000, 0, 0x8000⟩ priorityDefault 0xA0

def server : TaskControlBlock := .new 4 ⟨0x10000, 0, 0x8000⟩ priorityDefault 0xA0

/-- Two tasks are created and run; the first one sends a request, which the second one takes. -/
def requestActions : List Action :=
  [.createTask client, .createTask server, .addTask client, .addTask server,
    .interrupt 0 0x500 true true, .interrupt 1 0x600 true true, .send 0 4 Rqb.new, .receive 1]

theorem prepared_requestActions : ∀ task, .createTask task ∈ requestActions → Prepared task := by
  intro _ member
  simp only [requestActions, mem_cons, Action.createTask.injEq, reduceCtorEq, or_false,
    not_mem_nil] at member
  rcases member with rfl | rfl <;> exact .kernel ..

theorem delivered_requestActions :
    takes 4 (twoCpus.moves requestActions) = [Rqb.new.address 3 4] ∧
      Delivered 4 (twoCpus.moves requestActions) (requestActions.foldl System.after twoCpus) :=
  ⟨by decide +kernel, delivered_of_run twoCpus_boot
    (run_moves prepared_requestActions (by decide +kernel)) 4⟩

end Mmurtl.Scheduler

/-
This file proves that the slots of user programs are exclusive. Any number of tasks allocate and
free slots in one shared bitmap; the steps of an allocation, a load and a compare-exchange that is
tried again until it succeeds, may be interleaved in any way.
-/

import Mmurtl.User.Loading

namespace Mmurtl.User

open Transition

variable {Task : Type}

/-! ### Allocations -/

/-- The slot an allocation tries to take, the first free one from a random one on. -/
def candidate (cur : BitVec 64) (random : Nat) : Nat :=
  (((~~~cur).rotateRight (random % 64)).ctz.toNat + random % 64) % 64

/-- How far a task is: outside an allocation, before its load, or before its compare-exchange. -/
inductive Progress where
  | idle
  | loading (random : Nat)
  | loaded (random : Nat) (cur : BitVec 64)

/-- The bitmap, the slots that were returned and not freed since, and the tasks. -/
structure Sharing (Task : Type) where
  slots : BitVec 64
  held : List Nat
  tasks : Task → Progress

inductive Access (Task : Type) where
  | call (task : Task)
  | load (task : Task)
  | retry (task : Task)
  | returns (task : Task) (found : Option Nat)
  | free (slot : Nat)

/-- The task whose allocation goes on. -/
def Access.task : Access Task → Option Task
  | .call task | .load task | .retry task | .returns task _ => some task
  | .free _ => none

variable {task : Task} {cur : BitVec 64} {moves : List (Move (Sharing Task) (Access Task))}
  {move : Move (Sharing Task) (Access Task)}

/-- The last access of a task was its load of a bitmap. -/
def Loaded (moves : List (Move (Sharing Task) (Access Task))) (task : Task) (cur : BitVec 64) :
    Prop :=
  ∃ earlier move later, moves = earlier ++ move :: later ∧ move.label = .load task ∧
    move.before.slots = cur ∧ ∀ other ∈ later, other.label.task ≠ some task

theorem Loaded.snoc (loaded : Loaded moves task cur) (quiet : move.label.task ≠ some task) :
    Loaded (moves ++ [move]) task cur := by
  obtain ⟨earlier, load, later, rfl, label, same, others⟩ := loaded
  exact ⟨earlier, load, later ++ [move], by simp, label, same,
    List.forall_mem_append.mpr ⟨others, List.forall_mem_singleton.mpr quiet⟩⟩

variable [DecidableEq Task]

def Sharing.put (state : Sharing Task) (task : Task) (progress : Progress) : Sharing Task :=
  { state with tasks := Function.update state.tasks task progress }

/-- A step of a task makes at most one atomic access. A slot that is freed is held. -/
inductive Sharing.Step (state : Sharing Task) : Access Task → Sharing Task → Prop
  | call (task : Task) (random : Nat) (idle : state.tasks task = .idle) :
      Step state (.call task) (state.put task (.loading random))
  | load (task : Task) {random : Nat} (loading : state.tasks task = .loading random) :
      Step state (.load task) (state.put task (.loaded random state.slots))
  | full (task : Task) {random : Nat}
      (loaded : state.tasks task = .loaded random (BitVec.allOnes 64)) :
      Step state (.returns task none) (state.put task .idle)
  | exchange (task : Task) {random : Nat} {cur : BitVec 64}
      (loaded : state.tasks task = .loaded random cur) (room : cur ≠ BitVec.allOnes 64)
      (same : state.slots = cur) :
      Step state (.returns task (some (candidate cur random)))
        { state.put task .idle with
          slots := cur ||| BitVec.twoPow 64 (candidate cur random)
          held := candidate cur random :: state.held }
  | retry (task : Task) {random : Nat} {cur : BitVec 64}
      (loaded : state.tasks task = .loaded random cur) (room : cur ≠ BitVec.allOnes 64)
      (changed : state.slots ≠ cur) :
      Step state (.retry task) (state.put task (.loading random))
  | free {slot : Nat} (held : slot ∈ state.held) :
      Step state (.free slot)
        { state with
          slots := state.slots &&& ~~~BitVec.twoPow 64 slot
          held := state.held.erase slot }

def noSlots : Sharing Task := ⟨0, [], fun _ => .idle⟩

def sharing (Task : Type) [DecidableEq Task] : LabelledSystem (Sharing Task) (Access Task) where
  init state := state = noSlots
  step := Sharing.Step

variable {state next : Sharing Task} {access : Access Task}

/-- The bits are those of the slots that are held, each of them by one program. -/
structure Sharing.Accounts (state : Sharing Task) : Prop where
  bits : ∀ slot, state.slots.getLsbD slot = true ↔ slot ∈ state.held
  once : state.held.Nodup

/-- After a run, a slot is only returned if it is not held, and an allocation returns none only
if the bitmap it has loaded was full. -/
structure Exclusive (moves : List (Move (Sharing Task) (Access Task))) (state : Sharing Task) :
    Prop extends state.Accounts where
  free : ∀ task slot next, state.Step (.returns task (some slot)) next →
    slot < 64 ∧ slot ∉ state.held
  full : ∀ task next, state.Step (.returns task none) next →
    Loaded moves task (BitVec.allOnes 64)

/-! ### Bits -/

theorem candidate_lt (cur : BitVec 64) (random : Nat) : candidate cur random < 64 :=
  Nat.mod_lt _ (by decide)

theorem getLsbD_set {slot : Nat} (inside : slot < 64) (index : Nat) :
    (cur ||| BitVec.twoPow 64 slot).getLsbD index = true ↔
      index = slot ∨ cur.getLsbD index = true := by
  rw [BitVec.getLsbD_or, BitVec.getLsbD_twoPow, Bool.or_eq_true, Bool.and_eq_true,
    decide_eq_true_eq, decide_eq_true_eq]
  constructor
  · rintro (known | ⟨-, rfl⟩)
    · exact Or.inr known
    · exact Or.inl rfl
  · rintro (rfl | known)
    · exact Or.inr ⟨inside, rfl⟩
    · exact Or.inl known

theorem getLsbD_clear (slot index : Nat) :
    (cur &&& ~~~BitVec.twoPow 64 slot).getLsbD index = true ↔
      index ≠ slot ∧ cur.getLsbD index = true := by
  by_cases inside : index < 64
  · by_cases same : index = slot
    · simp [same]
    · simp [same, inside]
  · simp [BitVec.getLsbD_of_ge _ _ (Nat.le_of_not_lt inside)]

/-! ### Runs -/

/-- A task before its compare-exchange has loaded its bitmap last. -/
def AllLoaded (moves : List (Move (Sharing Task) (Access Task))) (state : Sharing Task) : Prop :=
  ∀ task random cur, state.tasks task = .loaded random cur → Loaded moves task cur

theorem Sharing.Step.accounts (step : state.Step access next) (accounts : state.Accounts) :
    next.Accounts := by
  cases step with
  | call | load | full | retry => exact ⟨accounts.bits, accounts.once⟩
  | @exchange task random cur loaded room same =>
    subst same
    refine ⟨fun slot => ?_, List.nodup_cons.mpr ⟨fun held => ?_, accounts.once⟩⟩
    · rw [getLsbD_set (candidate_lt _ _), List.mem_cons, accounts.bits]
    · have taken := (accounts.bits _).mpr held
      rw [candidate, slot_free (Nat.mod_lt _ (by decide)) room] at taken
      cases taken
  | @free slot held =>
    refine ⟨fun index => ?_, accounts.once.erase slot⟩
    rw [getLsbD_clear, accounts.once.mem_erase_iff, accounts.bits]

theorem AllLoaded.snoc {progress : Progress} (all : AllLoaded moves state)
    (acts : move.label.task = some task)
    (after : next.tasks = Function.update state.tasks task progress)
    (own : ∀ random cur, progress = .loaded random cur → Loaded (moves ++ [move]) task cur) :
    AllLoaded (moves ++ [move]) next := by
  intro other random cur known
  rw [after] at known
  by_cases same : other = task
  · rw [same, Function.update_self] at known
    exact same ▸ own random cur known
  · rw [Function.update_of_ne same] at known
    refine (all other random cur known).snoc ?_
    rw [acts, Ne, Option.some_inj]
    exact Ne.symm same

theorem Sharing.Step.allLoaded (step : state.Step access next) (all : AllLoaded moves state) :
    AllLoaded (moves ++ [⟨state, access, next⟩]) next := by
  cases step with
  | call | full | exchange | retry => exact all.snoc rfl rfl nofun
  | load =>
    refine all.snoc rfl rfl fun random cur same => ?_
    cases same
    exact ⟨moves, _, [], rfl, rfl, rfl, nofun⟩
  | free => exact fun task random cur known => (all task random cur known).snoc nofun

theorem kept_of_run {start last : Sharing Task} (initial : start = noSlots)
    (run : Run (sharing Task) start moves last) : last.Accounts ∧ AllLoaded moves last := by
  induction run with
  | nil =>
    subst initial
    exact ⟨⟨fun slot => by simp [noSlots], .nil⟩, nofun⟩
  | snoc run step ih => exact ⟨step.accounts ih.1, step.allLoaded ih.2⟩

/-- The slots are exclusive after every run. -/
theorem exclusive_of_run {last : Sharing Task} (run : Run (sharing Task) noSlots moves last) :
    Exclusive moves last := by
  obtain ⟨accounts, all⟩ := kept_of_run rfl run
  refine ⟨accounts, fun task slot next step => ?_, fun task next step => ?_⟩
  · have later := step.accounts accounts
    cases step with
    | exchange _ loaded room same =>
      exact ⟨candidate_lt _ _, (List.nodup_cons.mp later.once).1⟩
  · cases step with
    | full _ loaded => exact all _ _ _ loaded

/-- A task takes a slot after another one has loaded the bitmap. -/
theorem exclusive_overtaken : ∃ moves last, Exclusive moves last ∧
    last.tasks true = .loading 5 ∧ last.held = [9] := by
  have called : Run (sharing Bool) noSlots _ _ := .snoc (.snoc (.nil _) (.call true 5 rfl))
    (.call false 9 rfl)
  have loaded := (called.snoc (.load true rfl)).snoc (.load false rfl)
  have run := (loaded.snoc (.exchange false rfl (by decide) rfl)).snoc
    (.retry true rfl (by decide) (by decide +kernel))
  exact ⟨_, _, exclusive_of_run run, rfl, by decide +kernel⟩

end Mmurtl.User

/-
This file defines programs over a state that can return, fail or panic, and the
rules by which their runs are computed.

A failure keeps the state it happened in: it is a value the caller may inspect, and
nothing is undone behind its back. A panic is an outcome of its own, which no caller
can turn into a value.
-/

import Mathlib

namespace Mmurtl

open List

/-- How a call ends. -/
inductive Outcome (ε α : Type) where
  | ok (value : α)
  | error (reason : ε)
  | panic
  deriving DecidableEq

variable {γ : Type}

namespace Outcome

variable {ε α β : Type}

/-- Continue with the value of a call that returned. -/
def bind (outcome : Outcome ε α) (next : α → Outcome ε β) : Outcome ε β :=
  match outcome with
  | .ok value => next value
  | .error reason => .error reason
  | .panic => .panic

instance : Monad (Outcome ε) where
  pure := .ok
  bind := bind

/-- The value of a call that must not be missing. -/
def expect (value : Option α) : Outcome ε α :=
  match value with
  | some value => .ok value
  | none => .panic

/-- The value of a call that may fail, as an option. -/
def toOption : Outcome ε α → Option α
  | .ok value => some value
  | _ => none

@[simp] theorem pure_eq (value : α) : (pure value : Outcome ε α) = .ok value := rfl

@[simp] theorem ok_bind (value : α) (next : α → Outcome ε β) :
    (Outcome.ok value >>= next) = next value := rfl

@[simp] theorem error_bind (reason : ε) (next : α → Outcome ε β) :
    ((Outcome.error reason : Outcome ε α) >>= next) = .error reason := rfl

@[simp] theorem panic_bind (next : α → Outcome ε β) :
    ((Outcome.panic : Outcome ε α) >>= next) = .panic := rfl

/-- A call that returns after another one did so from the other one's value. -/
theorem bind_eq_ok {outcome : Outcome ε α} {next : α → Outcome ε β} {value : β} :
    (outcome >>= next) = .ok value ↔ ∃ middle, outcome = .ok middle ∧ next middle = .ok value := by
  cases outcome with
  | ok middle => simp
  | error reason => simp
  | panic => simp

theorem toOption_bind (outcome : Outcome ε α) (next : α → Outcome ε β) :
    (outcome >>= next).toOption = outcome.toOption.bind fun value => (next value).toOption := by
  cases outcome <;> rfl

theorem toOption_eq_some {outcome : Outcome ε α} {value : α} :
    outcome.toOption = some value ↔ outcome = .ok value := by
  cases outcome <;> simp [toOption]

theorem bind_assoc (outcome : Outcome ε α) (next : α → Outcome ε β) (last : β → Outcome ε γ) :
    (outcome >>= next >>= last) = (outcome >>= fun value => next value >>= last) := by
  cases outcome <;> rfl

/-- Two calls that go on alike from every value of a third. -/
theorem bind_congr {outcome : Outcome ε α} {next other : α → Outcome ε β}
    (same : ∀ value, outcome = .ok value → next value = other value) :
    (outcome >>= next) = (outcome >>= other) := by
  cases outcome with
  | ok value => exact same value rfl
  | error reason => rfl
  | panic => rfl

/-- A number that has to fit a machine word. -/
def word (width value : Nat) : Outcome ε Nat := if value < 2 ^ width then .ok value else .panic

theorem word_of_lt {width value : Nat} (fits : value < 2 ^ width) :
    (word width value : Outcome ε Nat) = .ok value := if_pos fits

theorem word_bind {width value : Nat} {next : Nat → Outcome ε α} (fits : value < 2 ^ width) :
    (word width value >>= next) = next value := by rw [word_of_lt fits, ok_bind]

/-- The value of a call under a condition; otherwise it fails. -/
def check (condition : Prop) [Decidable condition] (reason : ε) : Outcome ε Unit :=
  if condition then .ok () else .error reason

/-- Whether a call finds something in a list. -/
def any : List α → (α → Outcome ε Bool) → Outcome ε Bool
  | [], _ => .ok false
  | first :: rest, test => do
      let found ← test first
      if found then .ok true else any rest test

/-! ### Calls that do not panic -/

/-- A call does not panic, and where it returns its value meets a condition. -/
inductive Safe : Outcome ε α → (α → Prop) → Prop where
  | pure {value : α} {returns : α → Prop} (holds : returns value) : Safe (.ok value) returns
  | error {returns : α → Prop} (reason : ε) : Safe (.error reason) returns

namespace Safe

variable {outcome : Outcome ε α} {returns : α → Prop}

theorem mono {wider : α → Prop} (safe : outcome.Safe returns)
    (weaker : ∀ value, returns value → wider value) : outcome.Safe wider := by
  cases safe with
  | pure holds => exact .pure (weaker _ holds)
  | error reason => exact .error reason

theorem ne_panic (safe : outcome.Safe returns) : outcome ≠ .panic := by
  cases safe <;> exact nofun

theorem of_ok (safe : outcome.Safe returns) {value : α} (returned : outcome = .ok value) :
    returns value := by
  cases safe with
  | pure holds => cases returned; exact holds
  | error reason => cases returned

theorem bind {next : α → Outcome ε β} {last : β → Prop} (safe : outcome.Safe returns)
    (rest : ∀ value, returns value → (next value).Safe last) : (outcome >>= next).Safe last := by
  cases safe with
  | pure holds => exact rest _ holds
  | error reason => exact .error reason

theorem checkLast {condition : Prop} [Decidable condition] {reason : ε} {last : Unit → Prop}
    (holds : condition → last ()) : (Outcome.check condition reason).Safe last := by
  unfold Outcome.check
  split
  case isTrue met => exact .pure (holds met)
  case isFalse => exact .error reason

theorem check {condition : Prop} [Decidable condition] {reason : ε} {next : Unit → Outcome ε β}
    {last : β → Prop} (rest : condition → (next ()).Safe last) :
    (Outcome.check condition reason >>= next).Safe last :=
  (checkLast fun met => met).bind fun _ met => rest met

/-- The rule of calls on every element of a list. -/
theorem any {items : List α} {test : α → Outcome ε Bool} {property : α → Prop}
    (tests : ∀ item ∈ items, (test item).Safe fun found => found = true ↔ property item) :
    (Outcome.any items test).Safe fun found => found = true ↔ ∃ item ∈ items, property item := by
  induction items with
  | nil => exact .pure (iff_of_false (by simp) (by simp))
  | cons item rest ih =>
    refine (tests item mem_cons_self).bind fun found here => ?_
    cases found with
    | true => exact .pure (iff_of_true rfl ⟨item, mem_cons_self, here.mp rfl⟩)
    | false =>
      have away : ¬property item := fun holds => by simpa using here.mpr holds
      refine (ih (forall_mem_cons.mp tests).2).mono fun found later => ?_
      rw [later]
      simp [away]

/-- The rule of loops: an invariant of the state. -/
theorem foldlM {items : List β} {step : α → β → Outcome ε α} {start : α} (invariant : α → Prop)
    (begin : invariant start)
    (kept : ∀ state item, item ∈ items → invariant state → (step state item).Safe invariant) :
    (items.foldlM step start).Safe invariant := by
  induction items generalizing start with
  | nil => exact .pure begin
  | cons item rest ih =>
    refine (kept start item mem_cons_self begin).bind fun state holds => ?_
    exact ih holds fun other inner listed =>
      kept other inner (mem_cons_of_mem _ listed)

/-- The rule of loops that only check their items. -/
theorem each {items : List α} {step : α → Outcome ε Unit} {property : α → Prop}
    (checks : ∀ item ∈ items, (step item).Safe fun _ => property item) :
    (items.foldlM (fun _ item => step item) ()).Safe fun _ => ∀ item ∈ items, property item := by
  induction items with
  | nil => exact .pure (by simp)
  | cons item rest ih =>
    refine (checks item mem_cons_self).bind fun _ here => ?_
    refine (ih (forall_mem_cons.mp checks).2).mono fun _ later => ?_
    exact forall_mem_cons.mpr ⟨here, later⟩

end Safe

end Outcome

/-- A program over a state: how it ends, and the state it leaves. -/
def Program (σ ε α : Type) : Type := σ → Outcome ε α × σ

namespace Program

variable {σ ε α β : Type}

/-- Run a program and continue with its value. -/
def bind (program : Program σ ε α) (next : α → Program σ ε β) : Program σ ε β := fun state =>
  match program state with
  | (.ok value, after) => next value after
  | (.error reason, after) => (.error reason, after)
  | (.panic, after) => (.panic, after)

instance : Monad (Program σ ε) where
  pure value := fun state => (.ok value, state)
  bind := bind

/-- Stop with an error. -/
def fail (reason : ε) : Program σ ε α := fun state => (.error reason, state)

/-- Look at the state without changing it. -/
def reads (look : σ → Outcome ε α) : Program σ ε α := fun state => (look state, state)

/-- The value of a part of the state. -/
def gets (look : σ → α) : Program σ ε α := fun state => (.ok (look state), state)

/-- Change the state. -/
def modify (change : σ → σ) : Program σ ε Unit := fun state => (.ok (), change state)

/-- The value of something that must not be missing. -/
def expect (value : Option α) : Program σ ε α := fun state => (Outcome.expect value, state)

/-- Panic unless a condition holds. -/
def require (condition : Prop) [Decidable condition] : Program σ ε Unit := fun state =>
  if condition then (.ok (), state) else (.panic, state)

/-- Run a program under a condition. -/
def when (condition : Prop) [Decidable condition] (program : Program σ ε Unit) :
    Program σ ε Unit :=
  if condition then program else pure ()

/-- Run a handler where a program fails; a panic is not handled. -/
def handle (program : Program σ ε α) (handler : ε → Program σ ε α) : Program σ ε α :=
  fun state =>
    match program state with
    | (.error reason, after) => handler reason after
    | result => result

/-- Run a program for its effect, whether it fails or not. -/
def ignore (program : Program σ ε α) : Program σ ε Unit := fun state =>
  match program state with
  | (.panic, after) => (.panic, after)
  | (_, after) => (.ok (), after)

/-- Run a program for every element of a list, in order. -/
def forEach {β : Type} : List β → (β → Program σ ε Unit) → Program σ ε Unit
  | [], _ => pure ()
  | first :: rest, body => do
      body first
      forEach rest body

/-- Run a program that cannot fail on a part of the state. -/
def within {τ : Type} (part : τ → σ) (put : τ → σ → τ) (program : Program σ Empty α) :
    Program τ ε α := fun state =>
  match program (part state) with
  | (.ok value, after) => (.ok value, put state after)
  | (.error reason, _) => nomatch reason
  | (.panic, after) => (.panic, put state after)

/-! ### Runs -/

variable {program : Program σ ε α} {next : α → Program σ ε β} {state after : σ} {value : α}
  {reason : ε} {condition : Prop} [Decidable condition] {returns : α → σ → Prop}
  {fails : ε → σ → Prop} {last : β → σ → Prop} {items : List β} {body : β → Program σ ε Unit}

@[simp] theorem run_pure (value : α) (state : σ) :
    (pure value : Program σ ε α) state = (.ok value, state) := rfl

@[simp] theorem run_reads (look : σ → Outcome ε α) (state : σ) :
    reads look state = (look state, state) := rfl

@[simp] theorem run_modify (change : σ → σ) (state : σ) :
    (modify change : Program σ ε Unit) state = (.ok (), change state) := rfl

@[simp] theorem run_expect_some (value : α) (state : σ) :
    (expect (some value) : Program σ ε α) state = (.ok value, state) := rfl

theorem run_require (holds : condition) (state : σ) :
    (require condition : Program σ ε Unit) state = (.ok (), state) :=
  if_pos holds

/-- A run whose outcome is known. -/
theorem run_of_fst {outcome : Outcome ε α} (known : (program state).1 = outcome) :
    program state = (outcome, (program state).2) :=
  Prod.ext known rfl

theorem run_bind (program : Program σ ε α) (next : α → Program σ ε β) (state : σ) :
    (program >>= next) state =
      match program state with
      | (.ok value, after) => next value after
      | (.error reason, after) => (.error reason, after)
      | (.panic, after) => (.panic, after) := rfl

theorem bind_of_ok (run : program state = (.ok value, after)) :
    (program >>= next) state = next value after := by
  rw [run_bind, run]

/-- An assertion that holds does nothing. -/
theorem require_bind (holds : condition) (next : Unit → Program σ ε β) :
    ((require condition : Program σ ε Unit) >>= next) = next () :=
  funext fun state => bind_of_ok (run_require holds state)

theorem bind_of_error (run : program state = (.error reason, after)) :
    (program >>= next) state = (.error reason, after) := by
  rw [run_bind, run]

theorem bind_of_panic (run : program state = (.panic, after)) :
    (program >>= next) state = (.panic, after) := by
  rw [run_bind, run]

@[simp] theorem pure_bind_run (value : α) (next : α → Program σ ε β) (state : σ) :
    ((pure value : Program σ ε α) >>= next) state = next value state := rfl

@[simp] theorem gets_bind_run (look : σ → α) (next : α → Program σ ε β) (state : σ) :
    ((gets look : Program σ ε α) >>= next) state = next (look state) state := rfl

@[simp] theorem modify_bind_run (change : σ → σ) (next : Unit → Program σ ε β) (state : σ) :
    ((modify change : Program σ ε Unit) >>= next) state = next () (change state) := rfl

theorem handle_of_ok {handler : ε → Program σ ε α} (run : program state = (.ok value, after)) :
    program.handle handler state = (.ok value, after) := by
  simp only [handle, run]

theorem handle_of_error {handler : ε → Program σ ε α}
    (run : program state = (.error reason, after)) :
    program.handle handler state = handler reason after := by
  simp only [handle, run]

theorem ignore_of_ok (run : program state = (.ok value, after)) :
    program.ignore state = (.ok (), after) := by
  simp only [ignore, run]

theorem ignore_of_error (run : program state = (.error reason, after)) :
    program.ignore state = (.ok (), after) := by
  simp only [ignore, run]

/-! ### Loops -/

theorem forEach_cons (first : β) (rest : List β) (body : β → Program σ ε Unit) :
    forEach (first :: rest) body = (do body first; forEach rest body) := rfl

theorem forEach_congr {body other : β → Program σ ε Unit}
    (same : ∀ item ∈ items, body item = other item) : forEach items body = forEach items other := by
  induction items with
  | nil => rfl
  | cons first rest ih =>
    rw [forEach_cons, forEach_cons, same first mem_cons_self, ih (forall_mem_cons.mp same).2]

/-- A loop with a condition in its body is a loop over the items that meet it. -/
theorem forEach_when (items : List β) (condition : β → Prop) [DecidablePred condition]
    (body : β → Program σ ε Unit) (state : σ) :
    forEach items (fun item => when (condition item) (body item)) state =
      forEach (items.filter fun item => condition item) body state := by
  induction items generalizing state with
  | nil => rfl
  | cons first rest ih =>
    rw [forEach_cons, filter_cons, run_bind]
    unfold when
    by_cases met : condition first
    · rw [if_pos met, if_pos (decide_eq_true met), forEach_cons, run_bind]
      cases body first state with
      | mk outcome after =>
        cases outcome with
        | ok value => exact ih after
        | error reason => rfl
        | panic => rfl
    · rw [if_neg met, if_neg (by simpa using met)]
      exact ih state

/-- A loop over one list and then another is a loop over both. -/
theorem forEach_append (first second : List β) (body : β → Program σ ε Unit) (state : σ) :
    forEach (first ++ second) body state =
      (do forEach first body; forEach second body : Program σ ε Unit) state := by
  induction first generalizing state with
  | nil => rfl
  | cons head tail ih =>
    simp only [cons_append, forEach_cons, run_bind]
    cases body head state with
    | mk outcome after =>
      cases outcome with
      | ok value => exact ih after
      | error reason => rfl
      | panic => rfl

/-- A loop inside a loop is a loop over the concatenation. -/
theorem forEach_flatMap (outer : List γ) (inner : γ → List β) (body : β → Program σ ε Unit)
    (state : σ) :
    forEach (outer.flatMap inner) body state =
      forEach outer (fun item => forEach (inner item) body) state := by
  induction outer generalizing state with
  | nil => rfl
  | cons head tail ih =>
    rw [flatMap_cons, forEach_append, forEach_cons, run_bind, run_bind]
    cases forEach (inner head) body state with
    | mk outcome after =>
      cases outcome with
      | ok value => exact ih after
      | error reason => rfl
      | panic => rfl

theorem forEach_map (items : List γ) (select : γ → β) (body : β → Program σ ε Unit) :
    forEach (items.map select) body = forEach items fun item => body (select item) := by
  induction items with
  | nil => rfl
  | cons head tail ih =>
    rw [map_cons, forEach_cons, forEach_cons, ih]

/-! ### Postconditions -/

/-- A run does not panic; where it returns it meets one condition, where it fails another. -/
def Meets (program : Program σ ε α) (state : σ) (returns : α → σ → Prop)
    (fails : ε → σ → Prop) : Prop :=
  match program state with
  | (.ok value, after) => returns value after
  | (.error reason, after) => fails reason after
  | (.panic, _) => False

/-- A run does not panic, and leaves a state that meets a condition even where it fails. -/
def Leaves (program : Program σ ε α) (state : σ) (after : σ → Prop) : Prop :=
  program.Meets state (fun _ => after) fun _ => after

namespace Meets

theorem of_ok (run : program state = (.ok value, after)) (holds : returns value after) :
    program.Meets state returns fails := by
  rw [Meets, run]
  exact holds

theorem of_error (run : program state = (.error reason, after)) (holds : fails reason after) :
    program.Meets state returns fails := by
  rw [Meets, run]
  exact holds

theorem of_eq {other : Program σ ε α} {start : σ} (same : program state = other start)
    (meets : other.Meets start returns fails) : program.Meets state returns fails := by
  rw [Meets, same]
  exact meets

theorem pure (holds : returns value state) :
    (Pure.pure value : Program σ ε α).Meets state returns fails := holds

theorem fail (holds : fails reason state) :
    (Program.fail reason : Program σ ε α).Meets state returns fails := holds

/-- What is known where a run returned. -/
theorem ok (meets : program.Meets state returns fails) (run : program state = (.ok value, after)) :
    returns value after := by
  rw [Meets, run] at meets
  exact meets

/-- A run that does not panic returns or fails. -/
theorem cases (meets : program.Meets state returns fails) :
    (∃ value after, program state = (.ok value, after) ∧ returns value after) ∨
      ∃ reason after, program state = (.error reason, after) ∧ fails reason after := by
  cases run : program state with
  | mk outcome after =>
    rw [Meets, run] at meets
    cases outcome with
    | ok value => exact Or.inl ⟨value, after, rfl, meets⟩
    | error reason => exact Or.inr ⟨reason, after, rfl, meets⟩
    | panic => exact meets.elim

/-- A run that cannot fail returns. -/
theorem returned (meets : program.Meets state returns fun _ _ => False) :
    ∃ value after, program state = (.ok value, after) ∧ returns value after :=
  meets.cases.resolve_right fun ⟨_, _, _, wrong⟩ => wrong

section

variable (meets : program.Meets state returns fails)
include meets

/-- What is known where a run failed. -/
theorem error (run : program state = (.error reason, after)) : fails reason after := by
  rw [Meets, run] at meets
  exact meets

theorem mono {wider : α → σ → Prop} {looser : ε → σ → Prop}
    (left : ∀ value after, returns value after → wider value after)
    (right : ∀ reason after, fails reason after → looser reason after) :
    program.Meets state wider looser := by
  rcases meets.cases with ⟨value, after, run, holds⟩ | ⟨reason, after, run, holds⟩
  · exact of_ok run (left value after holds)
  · exact of_error run (right reason after holds)

theorem imp {wider : α → σ → Prop} (more : ∀ value after, returns value after → wider value after) :
    program.Meets state wider fails := meets.mono more fun _ _ => id

theorem loosen {looser : ε → σ → Prop}
    (more : ∀ reason after, fails reason after → looser reason after) :
    program.Meets state returns looser := meets.mono (fun _ _ => id) more

end

theorem step (run : program state = (.ok value, after))
    (rest : (next value).Meets after last fails) :
    (program >>= next).Meets state last fails := of_eq (bind_of_ok run) rest

/-- The rule of sequential composition. -/
theorem bind {middle : α → σ → Prop} (meets : program.Meets state middle fails)
    (rest : ∀ value after, middle value after → (next value).Meets after last fails) :
    (program >>= next).Meets state last fails := by
  rcases meets.cases with ⟨value, after, run, holds⟩ | ⟨_, after, run, holds⟩
  · exact step run (rest value after holds)
  · exact of_error (bind_of_error run) holds

/-- The rule of programs that first look at the state. -/
theorem reads {look : σ → Outcome ε α} (safe : look state ≠ .panic)
    (found : ∀ value, look state = .ok value → (next value).Meets state last fails)
    (failed : ∀ reason, look state = .error reason → fails reason state) :
    (Program.reads look >>= next).Meets state last fails := by
  cases looked : look state with
  | ok value => exact step (Prod.ext looked rfl) (found value looked)
  | error reason => exact of_error (bind_of_error (Prod.ext looked rfl)) (failed reason looked)
  | panic => exact absurd looked safe

theorem gets {look : σ → α} (rest : (next (look state)).Meets state last fails) :
    (Program.gets look >>= next).Meets state last fails := rest

theorem changes {change : σ → σ} {next : Unit → Program σ ε β}
    (rest : (next ()).Meets (change state) last fails) :
    (Program.modify change >>= next).Meets state last fails := rest

theorem modify {change : σ → σ} {returns : Unit → σ → Prop} (holds : returns () (change state)) :
    (Program.modify change : Program σ ε Unit).Meets state returns fails := holds

/-- The rule of values that must not be missing. -/
theorem expect {found : Option α} (there : found = some value)
    (rest : (next value).Meets state last fails) :
    (Program.expect found >>= next).Meets state last fails := by
  rw [there]
  exact rest

/-- The rule of assertions. -/
theorem require {next : Unit → Program σ ε β} (holds : condition)
    (rest : (next ()).Meets state last fails) :
    (Program.require condition >>= next).Meets state last fails :=
  step (run_require holds state) rest

/-- The rule of conditional programs. -/
theorem ite {other : Program σ ε α} (yes : condition → program.Meets state returns fails)
    (no : ¬condition → other.Meets state returns fails) :
    (if condition then program else other).Meets state returns fails := by
  by_cases holds : condition
  · rw [if_pos holds]
    exact yes holds
  · rw [if_neg holds]
    exact no holds

/-- The rule of checks that make a run fail. -/
theorem guard (holds : fails reason state) (rest : ¬condition → program.Meets state returns fails) :
    (if condition then Program.fail reason else program).Meets state returns fails :=
  ite (fun _ => fail holds) rest

theorem when {program : Program σ ε Unit} {after : σ → Prop}
    (yes : condition → program.Meets state (fun _ => after) fails) (no : ¬condition → after state) :
    (Program.when condition program).Meets state (fun _ => after) fails := ite yes no

/-- The rule of error handlers. -/
theorem handle {handler : ε → Program σ ε α} {caught : ε → σ → Prop}
    (meets : program.Meets state returns caught)
    (rest : ∀ reason after, caught reason after → (handler reason).Meets after returns fails) :
    (program.handle handler).Meets state returns fails := by
  rcases meets.cases with ⟨_, after, run, holds⟩ | ⟨reason, after, run, holds⟩
  · exact of_ok (handle_of_ok run) holds
  · exact of_eq (handle_of_error run) (rest reason after holds)

/-- The rule of runs whose failure is ignored. -/
theorem ignore {after : σ → Prop} (meets : program.Meets state (fun _ => after) fun _ => after) :
    program.ignore.Meets state (fun _ => after) fails := by
  rcases meets.cases with ⟨_, _, run, holds⟩ | ⟨_, _, run, holds⟩
  · exact of_ok (ignore_of_ok run) holds
  · exact of_ok (ignore_of_error run) holds

/-- The rule of loops: an invariant of what is still to be done. -/
theorem forEach (invariant : List β → σ → Prop) (begin : invariant items state)
    (step : ∀ item rest before, invariant (item :: rest) before →
      (body item).Meets before (fun _ after => invariant rest after) fails) :
    (Program.forEach items body).Meets state (fun _ after => invariant [] after) fails := by
  induction items generalizing state with
  | nil => exact begin
  | cons item rest ih =>
    exact (step item rest state begin).bind fun _ _ kept => ih kept

/-- The rule of loops that carry a value: an invariant of what is still to be done. -/
theorem foldlM {body : γ → β → Program σ ε γ} {start : γ} (invariant : List β → γ → σ → Prop)
    (begin : invariant items start state)
    (step : ∀ item rest value before, invariant (item :: rest) value before →
      (body value item).Meets before (fun next after => invariant rest next after) fails) :
    (items.foldlM body start).Meets state (fun last after => invariant [] last after) fails := by
  induction items generalizing start state with
  | nil => exact begin
  | cons item rest ih =>
    exact (step item rest start state begin).bind fun _ _ kept => ih kept

/-- The rule of programs on a part of the state. -/
theorem within {τ : Type} {part : τ → σ} {put : τ → σ → τ} {inner : Program σ Empty α} {whole : τ}
    {ends : α → τ → Prop} {stops : ε → τ → Prop} {never : Empty → σ → Prop}
    (meets : inner.Meets (part whole) (fun value after => ends value (put whole after)) never) :
    (Program.within part put inner : Program τ ε α).Meets whole ends stops := by
  rcases meets.cases with ⟨_, _, run, holds⟩ | ⟨reason, _⟩
  · refine of_ok ?_ holds
    simp only [Program.within, run]
  · exact nomatch reason

end Meets

theorem Leaves.final {after : σ → Prop} (leaves : program.Leaves state after) :
    after (program state).2 := by
  rcases leaves.cases with ⟨_, _, run, holds⟩ | ⟨_, _, run, holds⟩
  · rw [run]
    exact holds
  · rw [run]
    exact holds

/-! ### Postconditions of the runs that return -/

/-- Where a run returns it meets a condition; it may also fail or panic. -/
def Ensures (program : Program σ ε α) (state : σ) (returns : α → σ → Prop) : Prop :=
  ∀ value after, program state = (.ok value, after) → returns value after

namespace Ensures

theorem pure (holds : returns value state) :
    (Pure.pure value : Program σ ε α).Ensures state returns := by
  rintro _ _ ⟨⟩
  exact holds

theorem modify {change : σ → σ} {returns : Unit → σ → Prop} (holds : returns () (change state)) :
    (Program.modify change : Program σ ε Unit).Ensures state returns := by
  rintro _ _ ⟨⟩
  exact holds

theorem mono {wider : α → σ → Prop} (ensures : program.Ensures state returns)
    (weaker : ∀ value after, returns value after → wider value after) :
    program.Ensures state wider :=
  fun value after run => weaker value after (ensures value after run)

theorem bind {middle : α → σ → Prop} (ensures : program.Ensures state middle)
    (rest : ∀ value after, middle value after → (next value).Ensures after last) :
    (program >>= next).Ensures state last := by
  intro value after run
  cases first : program state with
  | mk outcome between =>
    cases outcome with
    | ok found =>
      rw [bind_of_ok first] at run
      exact rest found between (ensures found between first) value after run
    | error reason =>
      rw [bind_of_error first] at run
      cases run
    | panic =>
      rw [bind_of_panic first] at run
      cases run

theorem gets {look : σ → α} (rest : (next (look state)).Ensures state last) :
    (Program.gets look >>= next).Ensures state last := rest

theorem changes {change : σ → σ} {next : Unit → Program σ ε β}
    (rest : (next ()).Ensures (change state) last) :
    (Program.modify change >>= next).Ensures state last := rest

theorem require {next : Unit → Program σ ε β} (rest : condition → (next ()).Ensures state last) :
    (Program.require condition >>= next).Ensures state last := by
  by_cases holds : condition
  · intro value after run
    rw [bind_of_ok (run_require holds state)] at run
    exact rest holds value after run
  · intro _ _ run
    have stopped : (Program.require condition : Program σ ε Unit) state = (.panic, state) :=
      if_neg holds
    rw [bind_of_panic stopped] at run
    cases run

theorem expect {found : Option α}
    (rest : ∀ value, found = some value → (next value).Ensures state last) :
    (Program.expect found >>= next).Ensures state last := by
  cases found with
  | none => exact nofun
  | some value => exact rest value rfl

theorem ite {other : Program σ ε α} (yes : condition → program.Ensures state returns)
    (no : ¬condition → other.Ensures state returns) :
    (if condition then program else other).Ensures state returns := by
  by_cases holds : condition
  · rw [if_pos holds]
    exact yes holds
  · rw [if_neg holds]
    exact no holds

theorem when {program : Program σ ε Unit} {after : σ → Prop}
    (yes : condition → program.Ensures state (fun _ => after)) (no : ¬condition → after state) :
    (Program.when condition program).Ensures state (fun _ => after) :=
  ite yes fun holds => pure (no holds)

/-- The rule of loops: an invariant of what is done and what is still to be done. -/
theorem forEach (invariant : List β → List β → σ → Prop) (begin : invariant [] items state)
    (step : ∀ done item rest before, invariant done (item :: rest) before →
      (body item).Ensures before (fun _ after => invariant (done ++ [item]) rest after)) :
    (Program.forEach items body).Ensures state (fun _ after => invariant items [] after) := by
  suffices general : ∀ done rest before, invariant done rest before →
      (Program.forEach rest body).Ensures before
        (fun _ after => invariant (done ++ rest) [] after) from general [] items state begin
  intro done rest
  induction rest generalizing done with
  | nil =>
    intro before kept
    rw [append_nil]
    exact pure kept
  | cons item rest ih =>
    intro before kept
    refine (step done item rest before kept).bind fun _ after next => ?_
    have more := ih (done ++ [item]) after next
    rw [append_assoc] at more
    exact more

end Ensures

end Program

end Mmurtl

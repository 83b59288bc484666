/-
This file models the address-space tags of the arm64 port and proves that they isolate
address spaces from each other.

A tag is handed out at most once between two flushes of the translation buffers, except to
the registration that has it already. Tags of released spaces stay marked until the next
rollover, and a rollover keeps the tags that are loaded on some CPU. Which registration a
root belongs to, and what runs on which CPU, is read off the history of the calls.
-/

import Mmurtl.Library.Program
import Mmurtl.Library.Update

namespace Mmurtl.Arm64

open List Function

variable {index i root limit generation tag owner cpu : Nat} {result : Option Nat}
  {handed fewer : Nat → Nat → Prop} {loaded done : List (Nat × Nat)}

/-! ### The pool -/

/-- A registered address space, with its tag in a generation. -/
@[ext] structure Space where
  root : Nat
  tag : Nat
  generation : Nat
  deriving DecidableEq

def Space.empty : Space := ⟨0, 0, 0⟩

/-- The pool of tags: the registered spaces, what each CPU has loaded, and the tags handed out
in the current generation. -/
structure Asids where
  spaces : List Space
  active : List (Nat × Nat)
  used : Nat → Bool
  limit : Nat
  next : Nat
  generation : Nat

/-- A call of the pool: no error, but possibly a panic. -/
abbrev Call (α : Type) := Program Asids Empty α

namespace Asids

/-- Mark a tag as handed out. -/
def mark (tag : Nat) : Call Unit :=
  Program.modify fun pool => { pool with used := Function.update pool.used tag true }

/-- A pool for some number of spaces and CPUs. Tag 0 is the kernel's, tag 255 the boot map's. -/
def new (spaces cpus bits : Nat) : Outcome Empty Asids :=
  if 0 < bits ∧ bits ≤ 16 then .ok {
    spaces := List.replicate spaces Space.empty
    active := List.replicate cpus (0, 0)
    used := Function.update (Function.update (fun _ => false) 0 true) 255 true
    limit := 2 ^ bits - 1
    next := 1
    generation := 1 }
  else .panic

/-- Where the space with a root is. -/
def position (pool : Asids) (root : Nat) : Option Nat :=
  pool.spaces.findIdx? fun space => space.root == root

/-- Register a root, if there is a free space. -/
def register (root : Nat) : Call Bool := do
  let pool ← Program.gets fun pool => pool
  Program.require (root ≠ 0 ∧ ¬pool.spaces.any fun space => space.root == root)
  match pool.position 0 with
  | some index => do
      Program.modify fun pool =>
        { pool with spaces := pool.spaces.modify index ({ · with root := root }) }
      pure true
  | none => pure false

/-- Look at some number of tags, from the next one on, for one that is not handed out. -/
def allocateIn : Nat → Call (Option Nat)
  | 0 => pure none
  | count + 1 => do
      let tag ← Program.gets Asids.next
      Program.modify fun pool =>
        { pool with next := if tag = pool.limit then 1 else tag + 1 }
      let used ← Program.gets Asids.used
      if used tag then allocateIn count
      else do
        mark tag
        pure (some (tag % 65536))

/-- Hand out a tag. -/
def allocate : Call (Option Nat) := do
  let limit ← Program.gets Asids.limit
  allocateIn limit

/-- Keep the tag a CPU has loaded in the new generation. -/
def preserve (loaded : Nat × Nat) : Call Unit :=
  Program.when (loaded.1 ≠ 0) do
    let limit ← Program.gets Asids.limit
    Program.require (loaded.2 ≠ 0 ∧ loaded.2 ≤ limit)
    mark loaded.2
    let pool ← Program.gets fun pool => pool
    let index ← Program.expect (pool.position loaded.1)
    Program.modify fun pool => { pool with
      spaces := pool.spaces.modify index
        ({ · with tag := loaded.2, generation := pool.generation }) }

/-- Begin a new generation, in which only the tags loaded on some CPU are handed out. -/
def rollover : Call Unit := do
  let generation ← Program.gets Asids.generation
  Program.require (generation + 1 < 2 ^ 64)
  Program.modify fun pool => { pool with generation := generation + 1, used := fun _ => false }
  mark 0
  mark 255
  Program.modify fun pool => { pool with next := 1 }
  let active ← Program.gets Asids.active
  Program.forEach active preserve

/-- A tag for a space that has none in the current generation, and whether the translation
buffers have to be flushed. -/
def freshTag (index : Nat) : Call (Option Nat × Bool) := do
  let tag ← allocate
  match tag with
  | some tag => pure (some tag, false)
  | none => do
      rollover
      let pool ← Program.gets fun pool => pool
      let space ← Program.expect pool.spaces[index]?
      if space.generation = pool.generation then pure (some space.tag, true)
      else do
        let tag ← allocate
        pure (tag, true)

/-- Record what a CPU has loaded. -/
def setActive (cpu root tag : Nat) : Call Unit := do
  let active ← Program.gets Asids.active
  Program.require (cpu < active.length)
  Program.modify fun pool => { pool with active := pool.active.set cpu (root, tag) }

/-- Load the tag a space has. -/
def load (cpu root index : Nat) (flush : Bool) : Call (Option Nat × Bool) := do
  let pool ← Program.gets fun pool => pool
  let space ← Program.expect pool.spaces[index]?
  setActive cpu root space.tag
  pure (some space.tag, flush)

/-- Switch a CPU to a root: the tag to load, and whether to flush before it is loaded. -/
def activate (cpu root : Nat) : Call (Option Nat × Bool) := do
  if root = 0 then do
    setActive cpu 0 0
    pure (some 0, false)
  else do
    let pool ← Program.gets fun pool => pool
    let index ← Program.expect (pool.position root)
    let space ← Program.expect pool.spaces[index]?
    if space.generation ≠ pool.generation then do
      let (tag, flush) ← freshTag index
      match tag with
      | none => pure (none, flush)
      | some tag => do
          Program.modify fun pool => { pool with
            spaces := pool.spaces.modify index
              ({ · with tag := tag, generation := pool.generation }) }
          load cpu root index flush
    else load cpu root index false

/-- Forget a root. Its tag stays handed out until the next generation. -/
def release (root : Nat) : Call Unit := do
  let pool ← Program.gets fun pool => pool
  Program.require (¬pool.active.any fun loaded => loaded.1 == root)
  let index ← Program.expect (pool.position root)
  Program.modify fun pool => { pool with spaces := pool.spaces.set index Space.empty }

end Asids

/-! ### Histories -/

/-- A call of the pool. -/
inductive Request where
  | register (root : Nat)
  | activate (cpu root : Nat)
  | release (root : Nat)

/-- A call of the pool and what it returned. -/
inductive Event where
  | register (root : Nat) (done : Bool)
  | activate (cpu root : Nat) (tag : Option Nat) (flush : Bool)
  | release (root : Nat)
  deriving DecidableEq

/-- Run one call. -/
def Request.run : Request → Call Event
  | .register root => do
      let done ← Asids.register root
      pure (.register root done)
  | .activate cpu root => do
      let (tag, flush) ← Asids.activate cpu root
      pure (.activate cpu root tag flush)
  | .release root => do
      Asids.release root
      pure (.release root)

/-- Run calls one after another. -/
def runAll : List Request → Call (List Event)
  | [] => pure []
  | request :: rest => do
      let event ← request.run
      let events ← runAll rest
      pure (event :: events)

/-- What a history says: how long it is, the registration each root belongs to, and the
registration and tag each CPU runs. A registration is named by its place in the history. -/
structure Ledger where
  length : Nat
  owner : Nat → Option Nat
  running : Nat → Option (Nat × Nat)

variable {spaces : List Space} {change : Space → Space} {pool after : Asids} {ledger : Ledger}
  {old s new space : Space} {event : Event}

def Ledger.empty : Ledger := ⟨0, fun _ => none, fun _ => none⟩

/-- What a history says after one more event. -/
def Ledger.record (ledger : Ledger) : Event → Ledger
  | .register root done =>
      { ledger with
        length := ledger.length + 1
        owner := if done then Function.update ledger.owner root (some ledger.length)
          else ledger.owner }
  | .activate cpu root tag _ =>
      { ledger with
        length := ledger.length + 1
        running := match tag with
          | some tag => Function.update ledger.running cpu
              (if root = 0 then none else (ledger.owner root).map fun owner => (owner, tag))
          | none => ledger.running }
  | .release root =>
      { ledger with
        length := ledger.length + 1
        owner := Function.update ledger.owner root none }

def ledgerOf (events : List Event) : Ledger := events.foldl Ledger.record Ledger.empty

/-- Whether an event flushes the translation buffers. -/
def Event.flushes : Event → Bool
  | .activate _ _ _ flush => flush
  | _ => false

/-- An event that hands a tag to a registration. -/
def Hands (ledger : Ledger) (event : Event) (tag owner : Nat) : Prop :=
  ∃ cpu root flush, event = .activate cpu root (some tag) flush ∧ root ≠ 0 ∧
    ledger.owner root = some owner

/-- An earlier event of a history handed a tag to a registration, and nothing was flushed since. -/
def Since (events : List Event) (tag owner : Nat) : Prop :=
  ∃ before event after, events = before ++ event :: after ∧
    Hands (ledgerOf before) event tag owner ∧ ∀ later ∈ after, later.flushes = false

/-- One event keeps registrations apart, after a history. A tag handed out without a flush goes to
the registration that got it since the last one; a tag that is active on a CPU goes to the
registration that runs there. -/
structure Separated (limit : Nat) (ledger : Ledger) (handed : Nat → Nat → Prop) (event : Event) :
    Prop where
  owned : ∀ cpu root tag flush, event = .activate cpu root tag flush → root ≠ 0 →
    ∃ owner, ledger.owner root = some owner
  window : ∀ tag owner other, Hands ledger event tag owner → event.flushes = false →
    handed tag other → other = owner
  active : ∀ tag owner other cpu, Hands ledger event tag owner →
    ledger.running cpu = some (other, tag) → other = owner
  usable : ∀ tag owner, Hands ledger event tag owner → tag ≤ limit ∧ tag ≠ 0 ∧ tag ≠ 255
  exhausted : ∀ cpu root flush, event = .activate cpu root none flush →
    ∀ tag, 1 ≤ tag → tag ≤ limit → tag ≠ 255 →
    ∃ holder owner, ledger.running holder = some (owner, tag)

/-- Tags isolate registrations at every event of a history. A flush takes effect before the tag of
its event is used. -/
def Isolated (bits : Nat) (events : List Event) : Prop :=
  ∀ before event after, events = before ++ event :: after →
    Separated (2 ^ bits - 1) (ledgerOf before) (Since before) event

/-! ### Invariants -/

/-- The pool keeps its own books: roots and current tags are distinct, current tags are marked,
and what a CPU has loaded is current. -/
structure Tagged (limit : Nat) (pool : Asids) : Prop where
  limited : pool.limit = limit
  narrow : limit < 65536
  started : 1 ≤ pool.next ∧ pool.next ≤ limit
  reserved : pool.used 0 = true ∧ pool.used 255 = true
  generation : 1 ≤ pool.generation
  roots : ∀ (i j : Nat) (s t : Space), pool.spaces[i]? = some s → pool.spaces[j]? = some t →
    s.root = t.root → s.root ≠ 0 → i = j
  empty : ∀ (i : Nat) (s : Space), pool.spaces[i]? = some s → s.root = 0 → s.generation = 0
  older : ∀ (i : Nat) (s : Space), pool.spaces[i]? = some s → s.generation ≤ pool.generation
  current : ∀ (i : Nat) (s : Space), pool.spaces[i]? = some s → s.generation = pool.generation →
    1 ≤ s.tag ∧ s.tag ≤ limit ∧ s.tag ≠ 255 ∧ pool.used s.tag = true
  tags : ∀ (i j : Nat) (s t : Space), pool.spaces[i]? = some s → pool.spaces[j]? = some t →
    s.generation = pool.generation → t.generation = pool.generation → s.tag = t.tag → i = j
  loaded : ∀ (cpu root tag : Nat), pool.active[cpu]? = some (root, tag) → root ≠ 0 →
    ∃ (i : Nat) (s : Space), pool.spaces[i]? = some s ∧ s.root = root ∧ s.tag = tag ∧
      s.generation = pool.generation

/-- The pool agrees with a history: every space has its registration, and the tags handed out
since the last flush are marked and belong to nobody else. -/
structure Traced (ledger : Ledger) (handed : Nat → Nat → Prop) (pool : Asids) : Prop where
  owned : ∀ (i : Nat) s, pool.spaces[i]? = some s → s.root ≠ 0 →
    ∃ owner, ledger.owner s.root = some owner
  earlier : ∀ root owner, ledger.owner root = some owner → owner < ledger.length
  single : ∀ root other owner, ledger.owner root = some owner →
    ledger.owner other = some owner → root = other
  running : ∀ cpu, ledger.running cpu = pool.active[cpu]?.bind fun loaded =>
    if loaded.1 = 0 then none else (ledger.owner loaded.1).map fun owner => (owner, loaded.2)
  marked : ∀ tag owner, handed tag owner → pool.used tag = true
  kept : ∀ tag owner, handed tag owner → ∀ (i : Nat) s, pool.spaces[i]? = some s →
    s.generation = pool.generation → s.tag = tag → ledger.owner s.root = some owner

/-- What is handed out since the last flush, after one more event. -/
def handedAfter (ledger : Ledger) (handed : Nat → Nat → Prop) (event : Event) (tag owner : Nat) :
    Prop :=
  Hands ledger event tag owner ∨ event.flushes = false ∧ handed tag owner

/-! ### Spaces -/

theorem getElem?_modify_self (there : spaces[index]? = some space) :
    (spaces.modify index change)[index]? = some (change space) := by
  rw [getElem?_modify, there]
  exact congrArg some (if_pos rfl)

theorem Tagged.eq_of_tag (tagged : Tagged limit pool) (here : pool.spaces[i]? = some s)
    (there : pool.spaces[index]? = some old) (now : s.generation = pool.generation)
    (current : old.generation = pool.generation) (same : s.tag = old.tag) : s = old := by
  obtain rfl := tagged.tags i index s old here there now current same
  exact Option.some.inj (here.symm.trans there)

/-- The tag a CPU has loaded is the current tag of its space. -/
theorem Tagged.tag_eq (tagged : Tagged limit pool) (there : pool.spaces[index]? = some s)
    (proper : s.root ≠ 0) (active : (s.root, tag) ∈ pool.active) :
    s.tag = tag ∧ s.generation = pool.generation := by
  obtain ⟨cpu, place⟩ := mem_iff_getElem?.mp active
  obtain ⟨i, other, found, named, sameTag, live⟩ := tagged.loaded cpu _ tag place proper
  obtain rfl := tagged.roots i index other s found there named (named ▸ proper)
  cases found.symm.trans there
  exact ⟨sameTag, live⟩

theorem position_eq_some (found : pool.position root = some index) :
    ∃ space, pool.spaces[index]? = some space ∧ space.root = root := by
  obtain ⟨short, same, _⟩ := findIdx?_eq_some_iff_getElem.mp found
  exact ⟨pool.spaces[index], List.getElem?_eq_getElem short, by simpa using same⟩

/-! ### Allocation -/

/-- How many steps the search takes from one tag to another. -/
def distance (limit next tag : Nat) : Nat :=
  if next ≤ tag then tag - next else tag + limit - next

/-- What the search for a tag does. -/
structure Searched (pool : Asids) (result : Option Nat) (after : Asids) : Prop where
  spaces : after.spaces = pool.spaces
  active : after.active = pool.active
  limit : after.limit = pool.limit
  generation : after.generation = pool.generation
  started : 1 ≤ after.next ∧ after.next ≤ after.limit
  found : ∀ tag, result = some tag → tag ≠ 0 ∧ tag ≤ pool.limit ∧ pool.used tag = false ∧
    after.used = Function.update pool.used tag true
  missing : result = none → after.used = pool.used

theorem allocateIn_ensures (count : Nat) (pool : Asids) (narrow : pool.limit < 65536)
    (started : 1 ≤ pool.next ∧ pool.next ≤ pool.limit) :
    (Asids.allocateIn count).Ensures pool fun result after => Searched pool result after ∧
      (result = none → ∀ tag, 1 ≤ tag → tag ≤ pool.limit →
        distance pool.limit pool.next tag < count → pool.used tag = true) := by
  induction count generalizing pool with
  | zero =>
    refine .pure ⟨⟨rfl, rfl, rfl, rfl, started, nofun, fun _ => rfl⟩, ?_⟩
    intro _ tag _ _ close
    exact absurd close (Nat.not_lt_zero _)
  | succ count ih =>
    refine .gets (.changes (.gets ?_))
    have moved : 1 ≤ (if pool.next = pool.limit then 1 else pool.next + 1) ∧
        (if pool.next = pool.limit then 1 else pool.next + 1) ≤ pool.limit := by
      split <;> omega
    refine .ite (fun used => ?_) fun used => ?_
    · refine (ih { pool with next := ite _ _ _ } narrow moved).mono ?_
      rintro _ _ ⟨searched, complete⟩
      refine ⟨⟨searched.spaces, searched.active, searched.limit, searched.generation,
        searched.started, searched.found, searched.missing⟩, ?_⟩
      intro none_ tag low high close
      by_cases here : tag = pool.next
      · rw [here]
        exact used
      · refine complete none_ tag low high ?_
        show distance pool.limit (if pool.next = pool.limit then 1 else pool.next + 1) tag < count
        unfold distance at close ⊢
        split_ifs at close ⊢ <;> omega
    · have unused : pool.used pool.next = false := (Bool.not_eq_true _).mp used
      have small : pool.next % 65536 = pool.next := Nat.mod_eq_of_lt (by omega)
      refine .changes (.pure ⟨⟨rfl, rfl, rfl, rfl, moved, ?_, nofun⟩, nofun⟩)
      intro tag same
      rw [small] at same
      cases same
      exact ⟨by omega, started.2, unused, rfl⟩

/-- A tag is found unless all of them are handed out. -/
theorem allocate_ensures (tagged : Tagged limit pool) :
    Asids.allocate.Ensures pool fun result after => Searched pool result after ∧
      (result = none → ∀ tag, 1 ≤ tag → tag ≤ limit → pool.used tag = true) := by
  obtain rfl := tagged.limited
  have started := tagged.started
  refine .gets ((allocateIn_ensures pool.limit pool tagged.narrow started).mono ?_)
  rintro _ _ ⟨searched, complete⟩
  refine ⟨searched, fun none_ tag low high => complete none_ tag low high ?_⟩
  unfold distance
  split <;> omega

/-- The search changes the marks and the next tag only. -/
theorem Searched.eq (searched : Searched pool result after) :
    after = { pool with used := after.used, next := after.next } := by
  obtain ⟨_, _, _, _, _, _⟩ := after
  obtain ⟨rfl, rfl, rfl, rfl, _⟩ := searched
  rfl

theorem Searched.marked (searched : Searched pool result after) (used : pool.used tag = true) :
    after.used tag = true := by
  cases result with
  | none =>
    rw [searched.missing rfl]
    exact used
  | some found =>
    rw [(searched.found found rfl).2.2.2]
    by_cases same : tag = found
    · rw [same, update_self]
    · rw [update_of_ne same]
      exact used

theorem Tagged.searched (tagged : Tagged limit pool) (searched : Searched pool result after) :
    Tagged limit after := by
  have started := searched.started
  rw [searched.limit, tagged.limited] at started
  rw [searched.eq]
  refine { tagged with
    started := started
    reserved := ⟨searched.marked tagged.reserved.1, searched.marked tagged.reserved.2⟩
    current := fun i s there same => ?_ }
  obtain ⟨low, high, boot, used⟩ := tagged.current i s there same
  exact ⟨low, high, boot, searched.marked used⟩

theorem Traced.searched (traced : Traced ledger handed pool)
    (searched : Searched pool result after) : Traced ledger handed after := by
  rw [searched.eq]
  exact { traced with
    marked := fun tag owner given => searched.marked (traced.marked tag owner given) }

/-! ### Rollover -/

/-- A space at the beginning of a generation: current if a CPU has loaded it. -/
def refresh (generation : Nat) (loaded : List (Nat × Nat)) (space : Space) : Space :=
  if space.root ≠ 0 ∧ space.root ∈ loaded.map Prod.fst then
    { space with generation := generation }
  else space

@[simp] theorem refresh_root (generation : Nat) (loaded : List (Nat × Nat)) (space : Space) :
    (refresh generation loaded space).root = space.root := by
  unfold refresh
  split <;> rfl

@[simp] theorem refresh_tag (generation : Nat) (loaded : List (Nat × Nat)) (space : Space) :
    (refresh generation loaded space).tag = space.tag := by
  unfold refresh
  split <;> rfl

theorem refresh_of_mem (proper : space.root ≠ 0) (listed : space.root ∈ loaded.map Prod.fst) :
    refresh generation loaded space = { space with generation := generation } :=
  if_pos ⟨proper, listed⟩

theorem refresh_congr {more : List (Nat × Nat)}
    (same : space.root ≠ 0 → (space.root ∈ loaded.map Prod.fst ↔ space.root ∈ more.map Prod.fst)) :
    refresh generation loaded space = refresh generation more space :=
  if_congr (and_congr_right same) rfl rfl

/-- What a rollover does while the CPUs in a list are done. -/
structure Rolling (pool : Asids) (done : List (Nat × Nat)) (after : Asids) : Prop where
  spaces : after.spaces = pool.spaces.map (refresh (pool.generation + 1) done)
  active : after.active = pool.active
  limit : after.limit = pool.limit
  generation : after.generation = pool.generation + 1
  next : after.next = 1
  used : ∀ tag, after.used tag = true ↔
    tag = 0 ∨ tag = 255 ∨ ∃ root, root ≠ 0 ∧ (root, tag) ∈ done

section

variable (tagged : Tagged limit pool)
include tagged

/-- Marking the space of one more CPU. The tag a CPU has loaded is the tag of its space. -/
theorem refresh_step (proper : root ≠ 0) (there : pool.spaces[index]? = some old)
    (named : old.root = root) (loaded : (root, tag) ∈ pool.active) :
    (pool.spaces.map (refresh (pool.generation + 1) done)).modify index
        ({ · with tag := tag, generation := pool.generation + 1 }) =
      pool.spaces.map (refresh (pool.generation + 1) (done ++ [(root, tag)])) := by
  subst named
  have sameTag := (tagged.tag_eq there proper loaded).1
  refine ext_getElem? fun j => ?_
  rw [getElem?_modify, getElem?_map, getElem?_map]
  cases found : pool.spaces[j]? with
  | none => rfl
  | some space =>
    refine congrArg some ?_
    by_cases here : index = j
    · subst here
      rw [there] at found
      cases found
      have listed : old.root ∈ (done ++ [(old.root, tag)]).map Prod.fst := by simp
      rw [refresh_of_mem proper listed]
      exact (if_pos rfl).trans (Space.ext (refresh_root ..) sameTag.symm rfl)
    · have other : space.root ≠ old.root := fun equal =>
        here (tagged.roots index j old space there found equal.symm proper)
      exact (if_neg here).trans (refresh_congr fun _ => by simp [other])

theorem preserve_ensures {before : Asids} {item : Nat × Nat} (listed : item ∈ pool.active)
    (rolling : Rolling pool done before) :
    (Asids.preserve item).Ensures before fun _ after => Rolling pool (done ++ [item]) after := by
  obtain ⟨root, tag⟩ := item
  refine .when (fun proper => ?_) (fun idle => ?_)
  · refine .gets (.require fun _ => .changes (.gets (.expect fun index found => .modify ?_)))
    obtain ⟨space, there, named⟩ := position_eq_some found
    have there : before.spaces[index]? = some space := there
    rw [rolling.spaces, getElem?_map] at there
    obtain ⟨old, place, same⟩ := Option.map_eq_some_iff.mp there
    have namedOld : old.root = root := by
      rw [← refresh_root (pool.generation + 1) done old, same]
      exact named
    refine ⟨?_, rolling.active, rolling.limit, rolling.generation, rolling.next, ?_⟩
    · rw [rolling.spaces, ← refresh_step tagged proper place namedOld listed, rolling.generation]
    · intro other
      show Function.update before.used tag true other = true ↔ _
      by_cases same : other = tag
      · rw [same, update_self]
        exact iff_of_true rfl (Or.inr (Or.inr ⟨root, proper, by simp⟩))
      · rw [update_of_ne same, rolling.used other]
        simp [same]
  · have idle : root = 0 := Decidable.not_not.mp idle
    refine ⟨?_, rolling.active, rolling.limit, rolling.generation, rolling.next, ?_⟩
    · rw [rolling.spaces]
      exact map_congr_left fun space _ => refresh_congr fun proper => by simp [idle, proper]
    · intro other
      rw [rolling.used other]
      simp [idle]

/-- What a rollover does. -/
theorem rollover_ensures :
    Asids.rollover.Ensures pool fun _ after => Rolling pool pool.active after := by
  refine .gets (.require fun _ => .changes (.changes (.changes (.changes (.gets ?_)))))
  refine (Program.Ensures.forEach
    (fun done rest after => (∀ item ∈ rest, item ∈ pool.active) ∧ Rolling pool done after)
    ?_ ?_).mono fun _ _ last => last.2
  · refine ⟨fun _ listed => listed, ?_, rfl, rfl, rfl, rfl, ?_⟩
    · refine (map_id _).symm.trans (map_congr_left fun space _ => ?_)
      simp [refresh]
    · intro tag
      show Function.update (Function.update (fun _ => false) 0 true) 255 true tag = true ↔ _
      by_cases boot : tag = 255
      · simp [boot]
      · by_cases kernel : tag = 0 <;> simp [boot, kernel]
  · rintro _ item _ before ⟨listed, rolling⟩
    refine (preserve_ensures tagged (listed item mem_cons_self) rolling).mono ?_
    exact fun _ _ next => ⟨(forall_mem_cons.mp listed).2, next⟩

/-- The spaces that are current after a rollover were current before, and some CPU runs them. -/
theorem refresh_current (there : pool.spaces[i]? = some old)
    (current : (refresh (pool.generation + 1) pool.active old).generation = pool.generation + 1) :
    old.root ≠ 0 ∧ (old.root, old.tag) ∈ pool.active ∧ old.generation = pool.generation := by
  unfold refresh at current
  split at current
  case isTrue listed =>
    obtain ⟨proper, listed⟩ := listed
    obtain ⟨⟨root, _⟩, member, sameRoot⟩ := mem_map.mp listed
    have sameRoot : root = old.root := sameRoot
    subst sameRoot
    obtain ⟨sameTag, live⟩ := tagged.tag_eq there proper member
    rw [sameTag]
    exact ⟨proper, member, live⟩
  case isFalse =>
    have bound := tagged.older i old there
    omega

end

theorem Rolling.origin (rolling : Rolling pool done after) (there : after.spaces[i]? = some s) :
    ∃ old, pool.spaces[i]? = some old ∧ refresh (pool.generation + 1) done old = s := by
  rw [rolling.spaces, getElem?_map] at there
  exact Option.map_eq_some_iff.mp there

theorem Tagged.rolling (tagged : Tagged limit pool) (rolling : Rolling pool pool.active after) :
    Tagged limit after := by
  have started := tagged.started
  refine ⟨rolling.limit.trans tagged.limited, tagged.narrow, ?_, ?_, ?_, ?_, ?_, ?_, ?_, ?_, ?_⟩
  · rw [rolling.next]
    omega
  · exact ⟨(rolling.used 0).mpr (Or.inl rfl), (rolling.used 255).mpr (Or.inr (Or.inl rfl))⟩
  · rw [rolling.generation]
    omega
  · intro i j s t here there same proper
    obtain ⟨old, found, rfl⟩ := rolling.origin here
    obtain ⟨other, foundOther, rfl⟩ := rolling.origin there
    rw [refresh_root] at same proper
    rw [refresh_root] at same
    exact tagged.roots i j old other found foundOther same proper
  · intro i s here idle
    obtain ⟨old, found, rfl⟩ := rolling.origin here
    rw [refresh_root] at idle
    rw [refresh, if_neg (fun listed => listed.1 idle)]
    exact tagged.empty i old found idle
  · intro i s here
    obtain ⟨old, found, rfl⟩ := rolling.origin here
    have bound := tagged.older i old found
    rw [rolling.generation, refresh]
    split
    · exact Nat.le_refl _
    · omega
  · intro i s here current
    obtain ⟨old, found, rfl⟩ := rolling.origin here
    rw [rolling.generation] at current
    obtain ⟨proper, member, live⟩ := refresh_current tagged found current
    obtain ⟨low, high, boot, _⟩ := tagged.current i old found live
    rw [refresh_tag, rolling.used]
    exact ⟨low, high, boot, Or.inr (Or.inr ⟨old.root, proper, member⟩)⟩
  · intro i j s t here there current currentOther same
    obtain ⟨old, found, rfl⟩ := rolling.origin here
    obtain ⟨other, foundOther, rfl⟩ := rolling.origin there
    rw [rolling.generation] at current currentOther
    rw [refresh_tag, refresh_tag] at same
    exact tagged.tags i j old other found foundOther (refresh_current tagged found current).2.2
      (refresh_current tagged foundOther currentOther).2.2 same
  · intro cpu root tag place proper
    rw [rolling.active] at place
    obtain ⟨i, s, found, rfl, rfl, _⟩ := tagged.loaded cpu root tag place proper
    have listed : s.root ∈ pool.active.map Prod.fst :=
      mem_map_of_mem (mem_of_getElem? place)
    refine ⟨i, refresh (pool.generation + 1) pool.active s, ?_, refresh_root .., refresh_tag .., ?_⟩
    · rw [rolling.spaces, getElem?_map, found]
      rfl
    · rw [rolling.generation, refresh_of_mem proper listed]

/-- Nothing is handed out right after the flush of a rollover. -/
theorem Traced.rolling (traced : Traced ledger handed pool)
    (rolling : Rolling pool pool.active after) : Traced ledger (fun _ _ => False) after := by
  refine ⟨?_, traced.earlier, traced.single, ?_, fun _ _ => False.elim, fun _ _ => False.elim⟩
  · intro i s here proper
    obtain ⟨old, found, rfl⟩ := rolling.origin here
    rw [refresh_root] at proper ⊢
    exact traced.owned i old found proper
  · rw [rolling.active]
    exact traced.running

/-! ### Activation -/

/-- A pool in which a space is replaced. -/
def replace (pool : Asids) (index : Nat) (space : Space) : Asids :=
  { pool with spaces := pool.spaces.set index space }

/-- A pool in which a space has a tag in the current generation. -/
def assign (pool : Asids) (index tag : Nat) : Asids :=
  { pool with
    spaces := pool.spaces.modify index ({ · with tag := tag, generation := pool.generation }) }

/-- A tag may be given to a space: nobody else has it, and the space has no other. -/
structure Assignable (limit : Nat) (pool : Asids) (index : Nat) (space : Space) (tag : Nat) :
    Prop where
  there : pool.spaces[index]? = some space
  proper : space.root ≠ 0
  range : tag ≠ 0 ∧ tag ≤ limit ∧ tag ≠ 255
  used : pool.used tag = true
  free : ∀ i s, pool.spaces[i]? = some s → s.generation = pool.generation →
    s.tag = tag → i = index
  same : space.generation = pool.generation → space.tag = tag

theorem assign_eq (there : pool.spaces[index]? = some space) :
    assign pool index tag = replace pool index ⟨space.root, tag, pool.generation⟩ := by
  rw [assign, replace, modify_eq_set_getElem?, there]
  rfl

/-- Replacing a space by one with a root that no other space has, and with a tag that no other
current space has if it is current. A space that runs is not changed. -/
theorem Tagged.put (tagged : Tagged limit pool) (there : pool.spaces[index]? = some space)
    (unknown : new.root ≠ 0 → ∀ (i : Nat) s, i ≠ index → pool.spaces[i]? = some s →
      s.root ≠ new.root) (blank : new.root = 0 → new.generation = 0)
    (older : new.generation ≤ pool.generation)
    (current : new.generation = pool.generation → (1 ≤ new.tag ∧ new.tag ≤ limit ∧ new.tag ≠ 255 ∧
      pool.used new.tag = true) ∧ ∀ (i : Nat) s, i ≠ index → pool.spaces[i]? = some s →
        s.generation = pool.generation → s.tag ≠ new.tag)
    (runs : ∀ cpu : Nat, pool.active[cpu]? = some (space.root, space.tag) → space.root ≠ 0 →
      space.generation = pool.generation → new = space) :
    Tagged limit (replace pool index new) := by
  refine { tagged with
    roots := ?_, empty := ?_, older := ?_, current := ?_, tags := ?_, loaded := ?_ }
  · intro i j s t here here' same proper
    rcases set_cases here with ⟨rfl, rfl⟩ | ⟨other, old⟩ <;>
      rcases set_cases here' with ⟨rfl, rfl⟩ | ⟨other', old'⟩
    · rfl
    · exact absurd same.symm (unknown proper j t other' old')
    · exact absurd same (unknown (same ▸ proper) i s other old)
    · exact tagged.roots i j s t old old' same proper
  · intro i s here free
    rcases set_cases here with ⟨rfl, rfl⟩ | ⟨_, old⟩
    · exact blank free
    · exact tagged.empty i s old free
  · intro i s here
    rcases set_cases here with ⟨rfl, rfl⟩ | ⟨_, old⟩
    · exact older
    · exact tagged.older i s old
  · intro i s here now
    rcases set_cases here with ⟨rfl, rfl⟩ | ⟨_, old⟩
    · exact (current now).1
    · exact tagged.current i s old now
  · intro i j s t here here' now now' equal
    rcases set_cases here with ⟨rfl, rfl⟩ | ⟨other, old⟩ <;>
      rcases set_cases here' with ⟨rfl, rfl⟩ | ⟨other', old'⟩
    · rfl
    · exact absurd equal.symm ((current now).2 j t other' old' now')
    · exact absurd equal ((current now').2 i s other old now)
    · exact tagged.tags i j s t old old' now now' equal
  · intro cpu root tag place proper
    obtain ⟨i, s, found, rfl, rfl, now⟩ := tagged.loaded cpu root tag place proper
    refine ⟨i, s, ?_, rfl, rfl, now⟩
    show (pool.spaces.set index new)[i]? = some s
    by_cases at_ : index = i
    · subst at_
      rw [there] at found
      cases found
      rw [runs cpu place proper now, getElem?_set_self (List.getElem?_eq_some_iff.mp there).1]
    · rw [getElem?_set_ne at_]
      exact found

theorem Tagged.assign (tagged : Tagged limit pool)
    (assignable : Assignable limit pool index space tag) :
    Tagged limit (assign pool index tag) := by
  obtain ⟨there, proper, ⟨low, high, boot⟩, used, free, same⟩ := assignable
  rw [assign_eq there]
  refine tagged.put there ?_ (fun idle => absurd idle proper) (Nat.le_refl _) (fun _ => ?_) ?_
  · intro _ i s other old equal
    exact other (tagged.roots i index s space old there equal (equal ▸ proper))
  · exact ⟨⟨Nat.pos_of_ne_zero low, high, boot, used⟩,
      fun i s other old now equal => other (free i s old now equal)⟩
  · exact fun _ _ _ now => Space.ext rfl (same now).symm now.symm

theorem Traced.assign (traced : Traced ledger handed pool)
    (assignable : Assignable limit pool index space tag)
    (mine : ledger.owner space.root = some owner)
    (own : ∀ other, handed tag other → other = owner) :
    Traced ledger handed (Arm64.assign pool index tag) := by
  rw [assign_eq assignable.there]
  refine { traced with owned := ?_, kept := ?_ }
  · intro i s here proper
    rcases set_cases here with ⟨rfl, rfl⟩ | ⟨_, old⟩
    · exact ⟨owner, mine⟩
    · exact traced.owned i s old proper
  · intro given other member i s here current same
    rcases set_cases here with ⟨rfl, rfl⟩ | ⟨_, old⟩
    · have same : tag = given := same
      subst same
      rw [own other member]
      exact mine
    · exact traced.kept given other member i s old current same

theorem Tagged.setActive (tagged : Tagged limit pool)
    (current : root ≠ 0 → ∃ (i : Nat) (s : Space), pool.spaces[i]? = some s ∧ s.root = root ∧
      s.tag = tag ∧ s.generation = pool.generation) :
    Tagged limit { pool with active := pool.active.set cpu (root, tag) } := by
  refine { tagged with loaded := ?_ }
  intro other known given place proper
  rcases set_cases place with ⟨-, same⟩ | ⟨_, old⟩
  · cases same
    exact current proper
  · exact tagged.loaded other known given old proper

section

variable (traced : Traced ledger handed pool)
include traced

theorem Traced.weaken (weaker : ∀ tag owner, fewer tag owner → handed tag owner) :
    Traced ledger fewer pool :=
  ⟨traced.owned, traced.earlier, traced.single, traced.running,
    fun tag owner given => traced.marked tag owner (weaker tag owner given),
    fun tag owner given => traced.kept tag owner (weaker tag owner given)⟩

theorem Traced.recorded : Traced { ledger with length := ledger.length + 1 } handed pool :=
  ⟨traced.owned, fun root owner mine => Nat.lt_succ_of_lt (traced.earlier root owner mine),
    traced.single, traced.running, traced.marked, traced.kept⟩

/-- Handing out the tag of a current space. -/
theorem Traced.hand (tagged : Tagged limit pool)
    (there : pool.spaces[index]? = some space) (current : space.generation = pool.generation)
    (mine : ledger.owner space.root = some owner) :
    Traced ledger (fun tag other => (tag = space.tag ∧ other = owner) ∨ handed tag other) pool := by
  refine ⟨traced.owned, traced.earlier, traced.single, traced.running, ?_, ?_⟩
  · rintro tag other (⟨rfl, rfl⟩ | given)
    · exact (tagged.current index space there current).2.2.2
    · exact traced.marked tag other given
  · rintro tag other (⟨rfl, rfl⟩ | given) i s here now same
    · rw [tagged.eq_of_tag here there now current same]
      exact mine
    · exact traced.kept tag other given i s here now same

/-- The history of an activation says what the CPU has loaded. -/
theorem Traced.setActive (bound : cpu < pool.active.length) (flush : Bool) :
    Traced (ledger.record (.activate cpu root (some tag) flush)) handed
      { pool with active := pool.active.set cpu (root, tag) } := by
  refine ⟨traced.owned, ?_, traced.single, ?_, traced.marked, traced.kept⟩
  · exact fun known owner mine => Nat.lt_succ_of_lt (traced.earlier known owner mine)
  · intro other
    show Function.update ledger.running cpu _ other =
      (pool.active.set cpu (root, tag))[other]?.bind _
    by_cases same : other = cpu
    · subst same
      rw [update_self, getElem?_set_self bound]
      rfl
    · rw [update_of_ne same, getElem?_set_ne (Ne.symm same)]
      exact traced.running other

/-- A CPU that runs a registration has loaded its root and tag. -/
theorem Traced.running_eq_some : ledger.running cpu = some (owner, tag) ↔
      ∃ root, root ≠ 0 ∧ pool.active[cpu]? = some (root, tag) ∧ ledger.owner root = some owner := by
  rw [traced.running cpu, Option.bind_eq_some_iff]
  constructor
  · rintro ⟨⟨root, _⟩, place, found⟩
    by_cases idle : root = 0
    · rw [if_pos idle] at found
      cases found
    · rw [if_neg idle] at found
      obtain ⟨_, mine, same⟩ := Option.map_eq_some_iff.mp found
      cases same
      exact ⟨root, idle, place, mine⟩
  · rintro ⟨root, proper, place, mine⟩
    refine ⟨(root, tag), place, ?_⟩
    rw [if_neg proper, mine]
    rfl

end

theorem setActive_ensures (pool : Asids) :
    (Asids.setActive cpu root tag).Ensures pool fun _ after =>
      cpu < pool.active.length ∧ after = { pool with active := pool.active.set cpu (root, tag) } :=
  .gets (.require fun bound => .modify ⟨bound, rfl⟩)

/-- What loading the tag of a current space does. -/
theorem load_ensures (tagged : Tagged limit pool)
    (traced : Traced ledger handed pool) (there : pool.spaces[index]? = some space)
    (current : space.generation = pool.generation) (mine : ledger.owner space.root = some owner)
    (cpu : Nat) (flush : Bool) :
    (Asids.load cpu space.root index flush).Ensures pool fun result after =>
      result = (some space.tag, flush) ∧ Tagged limit after ∧
      Traced (ledger.record (.activate cpu space.root (some space.tag) flush))
        (fun tag other => (tag = space.tag ∧ other = owner) ∨ handed tag other) after ∧
      (space.tag ≤ limit ∧ space.tag ≠ 0 ∧ space.tag ≠ 255) ∧
      (∀ other, handed space.tag other → other = owner) ∧
      ∀ holder other, ledger.running holder = some (other, space.tag) → other = owner := by
  refine .gets (.expect fun found same => ?_)
  rw [there] at same
  cases same
  refine (setActive_ensures pool).bind ?_
  rintro _ _ ⟨bound, rfl⟩
  obtain ⟨low, high, boot, _⟩ := tagged.current index space there current
  refine .pure ⟨rfl, tagged.setActive fun _ => ⟨index, space, there, rfl, rfl, current⟩,
    (traced.hand tagged there current mine).setActive bound flush,
    ⟨high, Nat.ne_of_gt low, boot⟩, ?_, ?_⟩
  · intro other given
    have known := traced.kept space.tag other given index space there current rfl
    rw [mine] at known
    exact (Option.some.inj known).symm
  · intro holder _ runs
    obtain ⟨root, active, place, known⟩ := traced.running_eq_some.mp runs
    obtain ⟨i, s, found, rfl, sameTag, now⟩ := tagged.loaded holder root space.tag place active
    rw [tagged.eq_of_tag found there now current sameTag, mine] at known
    exact (Option.some.inj known).symm

/-- A tag that the search finds may be given to a space that has none. -/
theorem assignable_of_searched (tagged : Tagged limit pool)
    (searched : Searched pool (some tag) after) (there : pool.spaces[index]? = some space)
    (proper : space.root ≠ 0) (stale : space.generation ≠ pool.generation) :
    Assignable limit after index space tag := by
  obtain ⟨low, high, unused, marked⟩ := searched.found tag rfl
  rw [tagged.limited] at high
  refine ⟨?_, proper, ⟨low, high, ?_⟩, ?_, ?_, ?_⟩
  · rw [searched.spaces]
    exact there
  · rintro rfl
    rw [tagged.reserved.2] at unused
    cases unused
  · rw [marked, update_self]
  · intro i s here current same
    rw [searched.spaces] at here
    rw [searched.generation] at current
    have used := (tagged.current i s here current).2.2.2
    rw [same, unused] at used
    cases used
  · intro current
    rw [searched.generation] at current
    exact absurd current stale

/-- What the search for a tag in this generation, and then in the next, gives. -/
structure Fresh (limit : Nat) (ledger : Ledger) (handed : Nat → Nat → Prop) (pool : Asids)
    (index root : Nat) (result : Option Nat × Bool) (after : Asids) : Prop where
  tagged : Tagged limit after
  traced : Traced ledger (fun tag owner => result.2 = false ∧ handed tag owner) after
  found : ∀ tag, result.1 = some tag →
    (∃ space, space.root = root ∧ Assignable limit after index space tag) ∧
      ∀ owner, handed tag owner → result.2 = true
  missing : result.1 = none → ∀ tag, 1 ≤ tag → tag ≤ limit → tag ≠ 255 →
    ∃ known, known ≠ 0 ∧ (known, tag) ∈ pool.active

theorem freshTag_ensures (tagged : Tagged limit pool)
    (traced : Traced ledger handed pool) (there : pool.spaces[index]? = some space)
    (proper : space.root ≠ 0) (stale : space.generation ≠ pool.generation) :
    (Asids.freshTag index).Ensures pool (Fresh limit ledger handed pool index space.root) := by
  refine (allocate_ensures tagged).bind ?_
  rintro result _ ⟨searched, _⟩
  cases result with
  | some tag =>
    refine .pure ⟨tagged.searched searched, (traced.searched searched).weaken
      (fun _ _ given => given.2), ?_, nofun⟩
    rintro _ ⟨⟩
    refine ⟨⟨space, rfl, assignable_of_searched tagged searched there proper stale⟩, ?_⟩
    intro owner given
    have used := traced.marked tag owner given
    rw [(searched.found tag rfl).2.2.1] at used
    cases used
  | none =>
    have firstTagged := tagged.searched searched
    have firstTraced := traced.searched searched
    refine (rollover_ensures firstTagged).bind fun _ rolled rolling => ?_
    have rolledTagged := firstTagged.rolling rolling
    have rolledTraced := firstTraced.rolling rolling
    refine .gets (.expect fun renewed found => ?_)
    obtain ⟨_, place, same⟩ := rolling.origin found
    rw [searched.spaces, there] at place
    cases place
    have named : renewed.root = space.root := by rw [← same, refresh_root]
    refine .ite (fun current => ?_) fun current => ?_
    · refine .pure ⟨rolledTagged, rolledTraced.weaken (fun _ _ given => nomatch given.1), ?_, nofun⟩
      rintro _ ⟨⟩
      obtain ⟨low, high, boot, used⟩ := rolledTagged.current index renewed found current
      exact ⟨⟨renewed, named, found, named ▸ proper, ⟨Nat.ne_of_gt low, high, boot⟩, used,
        fun i s here now equal => rolledTagged.tags i index s renewed here found now current equal,
        fun _ => rfl⟩, fun _ _ => rfl⟩
    · refine (allocate_ensures rolledTagged).bind ?_
      rintro _ _ ⟨again, complete⟩
      refine .pure ⟨rolledTagged.searched again, (rolledTraced.searched again).weaken
        (fun _ _ given => nomatch given.1), ?_, ?_⟩
      · rintro tag rfl
        exact ⟨⟨renewed, named, assignable_of_searched rolledTagged again found (named ▸ proper)
          current⟩, fun _ _ => rfl⟩
      · intro none_ tag low high boot
        have used := complete none_ tag low high
        rcases (rolling.used tag).mp used with wrong | wrong | ⟨known, active, member⟩
        · omega
        · exact absurd wrong boot
        · rw [searched.active] at member
          exact ⟨known, active, member⟩

/-! ### Calls -/

/-- What a call leaves: the books are kept, the history is recorded, and the event keeps
registrations apart. -/
structure Lawful (limit : Nat) (ledger : Ledger) (handed : Nat → Nat → Prop) (event : Event)
    (after : Asids) : Prop where
  tagged : Tagged limit after
  traced : Traced (ledger.record event) (handedAfter ledger handed event) after
  separated : Separated limit ledger handed event

section Silent

variable (silent : ∀ tag owner, ¬Hands ledger event tag owner)
include silent

/-- An event that hands nothing out. -/
theorem separated_of_silent
    (owned : ∀ cpu root tag flush, event = .activate cpu root tag flush → root ≠ 0 →
      ∃ owner, ledger.owner root = some owner)
    (exhausted : ∀ cpu root flush, event = .activate cpu root none flush →
      ∀ tag, 1 ≤ tag → tag ≤ limit → tag ≠ 255 →
      ∃ holder owner, ledger.running holder = some (owner, tag)) :
    Separated limit ledger handed event :=
  ⟨owned, fun tag owner _ given => absurd given (silent tag owner),
    fun tag owner _ _ given => absurd given (silent tag owner),
    fun tag owner given => absurd given (silent tag owner), exhausted⟩

theorem handedAfter_of_silent (given : handedAfter ledger handed event tag owner) :
    event.flushes = false ∧ handed tag owner :=
  given.resolve_left (silent tag owner)

end Silent

theorem hands_activate {tag : Option Nat} {flush : Bool} {given : Nat}
    (hands : Hands ledger (.activate cpu root tag flush) given owner) :
    tag = some given ∧ root ≠ 0 ∧ ledger.owner root = some owner := by
  obtain ⟨_, _, _, same, proper, mine⟩ := hands
  cases same
  exact ⟨rfl, proper, mine⟩

/-- Loading a current space is lawful, if nothing counts as handed out that a flush undid. -/
theorem lawful_load (tagged : Tagged limit pool)
    (traced : Traced ledger fewer pool) (there : pool.spaces[index]? = some space)
    (current : space.generation = pool.generation) (named : space.root = root)
    (mine : ledger.owner space.root = some owner) (cpu : Nat) (flush : Bool)
    (kept : ∀ tag other, flush = false → handed tag other → fewer tag other) :
    (Asids.load cpu root index flush).Ensures pool fun result after =>
      Lawful limit ledger handed (.activate cpu root result.1 result.2) after := by
  subst named
  refine (load_ensures tagged traced there current mine cpu flush).mono ?_
  rintro _ _ ⟨rfl, lastTagged, lastTraced, usable, window, active⟩
  have hands : ∀ {tag other : Nat},
      Hands ledger (.activate cpu space.root (some space.tag) flush) tag other →
        tag = space.tag ∧ other = owner := by
    intro tag other given
    obtain ⟨same, _, known⟩ := hands_activate given
    rw [mine] at known
    exact ⟨(Option.some.inj same).symm, (Option.some.inj known).symm⟩
  refine ⟨lastTagged, lastTraced.weaken ?_, ?_, ?_, ?_, ?_, nofun⟩
  · rintro tag other (given | ⟨quiet, given⟩)
    · exact Or.inl (hands given)
    · exact Or.inr (kept tag other quiet given)
  · intro _ _ _ _ same _
    cases same
    exact ⟨owner, mine⟩
  · intro tag known other given quiet earlier
    obtain ⟨rfl, rfl⟩ := hands given
    exact window other (kept _ other quiet earlier)
  · intro _ _ other holder given runs
    obtain ⟨rfl, rfl⟩ := hands given
    exact active holder other runs
  · intro _ _ given
    obtain ⟨rfl, rfl⟩ := hands given
    exact usable

theorem activate_ensures (tagged : Tagged limit pool) (traced : Traced ledger handed pool)
    (cpu root : Nat) :
    (Asids.activate cpu root).Ensures pool fun result after =>
      Lawful limit ledger handed (.activate cpu root result.1 result.2) after := by
  refine .ite (fun idle => ?_) fun idle => ?_
  · refine (setActive_ensures pool).bind ?_
    rintro _ _ ⟨bound, rfl⟩
    subst idle
    have hands : ∀ tag owner, ¬Hands ledger (.activate cpu 0 (some 0) false) tag owner :=
      fun tag owner given => (hands_activate given).2.1 rfl
    refine .pure ⟨tagged.setActive fun wrong => absurd rfl wrong,
      (traced.setActive bound false).weaken fun _ _ given => (handedAfter_of_silent hands given).2,
      separated_of_silent hands ?_ nofun⟩
    intro _ _ _ _ same proper
    cases same
    exact absurd rfl proper
  · refine .gets (.expect fun index found => .expect fun space there => ?_)
    obtain ⟨known, place, named⟩ := position_eq_some found
    rw [there] at place
    cases place
    subst named
    obtain ⟨owner, mine⟩ := traced.owned index space there idle
    by_cases current : space.generation = pool.generation
    · rw [if_neg (not_not.mpr current)]
      exact lawful_load tagged traced there current rfl mine cpu false fun _ _ _ given => given
    · rw [if_pos current]
      refine (freshTag_ensures tagged traced there idle current).bind ?_
      rintro ⟨tag, flush⟩ fresh known
      cases tag with
      | some tag =>
        obtain ⟨⟨_, sameRoot, assignable⟩, flushed⟩ := known.found tag rfl
        refine .changes ?_
        have renewed : (assign fresh index tag).spaces[index]? =
            some ⟨space.root, tag, fresh.generation⟩ := by
          rw [← sameRoot]
          exact getElem?_modify_self assignable.there
        refine lawful_load (known.tagged.assign assignable)
          (known.traced.assign assignable (sameRoot ▸ mine) ?_) renewed rfl rfl mine cpu flush
          fun _ _ quiet given => ⟨quiet, given⟩
        rintro other ⟨quiet, given⟩
        have loud := flushed other given
        rw [quiet] at loud
        cases loud
      | none =>
        have hands : ∀ tag owner,
            ¬Hands ledger (.activate cpu space.root none flush) tag owner :=
          fun tag owner given => nomatch (hands_activate given).1
        refine .pure ⟨known.tagged, known.traced.recorded.weaken fun _ _ =>
          handedAfter_of_silent hands, separated_of_silent hands ?_ ?_⟩
        · intro _ root _ _ same _
          cases same
          exact ⟨owner, mine⟩
        · intro _ _ _ _ tag low high boot
          obtain ⟨root, proper, member⟩ := known.missing rfl tag low high boot
          obtain ⟨holder, active⟩ := mem_iff_getElem?.mp member
          obtain ⟨i, s, here, rfl, _⟩ := tagged.loaded holder root tag active proper
          obtain ⟨other, theirs⟩ := traced.owned i s here proper
          exact ⟨holder, other, traced.running_eq_some.mpr ⟨s.root, proper, active, theirs⟩⟩

/-! ### Registration -/

/-- Replacing a space that no CPU runs by one that is not current. -/
theorem Tagged.replace (tagged : Tagged limit pool) (there : pool.spaces[index]? = some space)
    (idle : ∀ (cpu tag : Nat), pool.active[cpu]? = some (space.root, tag) → space.root = 0)
    (stale : new.generation = 0)
    (unknown : new.root ≠ 0 → ∀ (i : Nat) s, pool.spaces[i]? = some s → s.root ≠ new.root) :
    Tagged limit (replace pool index new) := by
  have began := tagged.generation
  exact tagged.put there (fun proper i s _ => unknown proper i s) (fun _ => stale)
    (stale ▸ Nat.zero_le _) (fun now => by omega) fun cpu place proper =>
      absurd (idle cpu _ place) proper

/-- Replacing a space changes what one root belongs to. -/
theorem Traced.replace {value : Option Nat} (traced : Traced ledger handed pool)
    (tagged : Tagged limit pool) (stale : new.generation = 0)
    (fresh : ∀ owner, value = some owner → owner = ledger.length)
    (mine : new.root ≠ 0 → new.root = root ∧ ∃ owner, value = some owner)
    (others : ∀ (i : Nat) s, i ≠ index → pool.spaces[i]? = some s → s.root ≠ 0 → s.root ≠ root)
    (idle : ∀ (cpu known tag : Nat), pool.active[cpu]? = some (known, tag) → known ≠ 0 →
      known ≠ root) :
    Traced ⟨ledger.length + 1, Function.update ledger.owner root value, ledger.running⟩ handed
      (replace pool index new) := by
  have began := tagged.generation
  have owners {known owner : Nat}
      (given : Function.update ledger.owner root value known = some owner) :
      known = root ∧ owner = ledger.length ∨ known ≠ root ∧ ledger.owner known = some owner := by
    by_cases same : known = root
    · rw [same, update_self] at given
      exact Or.inl ⟨same, fresh owner given⟩
    · rw [update_of_ne same] at given
      exact Or.inr ⟨same, given⟩
  refine ⟨?_, ?_, ?_, ?_, traced.marked, ?_⟩
  · intro i s here proper
    show ∃ owner, Function.update ledger.owner root value s.root = some owner
    rcases set_cases here with ⟨rfl, rfl⟩ | ⟨other, old⟩
    · rw [(mine proper).1, update_self]
      exact (mine proper).2
    · rw [update_of_ne (others i s other old proper)]
      exact traced.owned i s old proper
  · intro known owner given
    rcases owners given with ⟨-, rfl⟩ | ⟨_, earlier⟩
    · exact Nat.lt_succ_self _
    · exact Nat.lt_succ_of_lt (traced.earlier known owner earlier)
  · intro first second owner given given'
    rcases owners given with ⟨same, late⟩ | ⟨_, old⟩ <;>
      rcases owners given' with ⟨same', late'⟩ | ⟨_, old'⟩
    · rw [same, same']
    · exact absurd (traced.earlier second owner old') (by omega)
    · exact absurd (traced.earlier first owner old) (by omega)
    · exact traced.single first second owner old old'
  · intro cpu
    show ledger.running cpu = pool.active[cpu]?.bind fun loaded => if loaded.1 = 0 then none else
      (Function.update ledger.owner root value loaded.1).map fun owner => (owner, loaded.2)
    rw [traced.running cpu]
    cases place : pool.active[cpu]? with
    | none => rfl
    | some loaded =>
      by_cases free : loaded.1 = 0
      · simp only [Option.bind_some, if_pos free]
      · simp only [Option.bind_some, if_neg free,
          update_of_ne (idle cpu loaded.1 loaded.2 place free)]
  · intro tag owner given i s here now same
    show Function.update ledger.owner root value s.root = some owner
    have now : s.generation = pool.generation := now
    rcases set_cases here with ⟨rfl, rfl⟩ | ⟨other, old⟩
    · omega
    · have proper : s.root ≠ 0 := by
        intro free
        have zero := tagged.empty i s old free
        omega
      rw [update_of_ne (others i s other old proper)]
      exact traced.kept tag owner given i s old now same

section

variable (tagged : Tagged limit pool) (traced : Traced ledger handed pool)
include tagged traced

theorem register_ensures (root : Nat) : (Asids.register root).Ensures pool fun done after =>
      Lawful limit ledger handed (.register root done) after := by
  refine .gets (.require fun checked => ?_)
  obtain ⟨_, missing⟩ := checked
  have unknown : ∀ (i : Nat) s, pool.spaces[i]? = some s → s.root ≠ root := by
    intro i s here same
    exact missing (any_eq_true.mpr ⟨s, mem_of_getElem? here, beq_iff_eq.mpr same⟩)
  have silent : ∀ done tag owner, ¬Hands ledger (.register root done) tag owner := by
    rintro _ tag _ ⟨_, _, _, same, _⟩
    cases same
  cases found : pool.position 0 with
  | none =>
    exact .pure ⟨tagged, traced.recorded.weaken fun _ _ given =>
      (handedAfter_of_silent (silent _) given).2, separated_of_silent (silent _) nofun nofun⟩
  | some index =>
    obtain ⟨space, there, free⟩ := position_eq_some found
    refine .changes (.pure ?_)
    have same : replace pool index ⟨root, space.tag, space.generation⟩ =
        { pool with spaces := pool.spaces.modify index ({ · with root := root }) } := by
      rw [replace, modify_eq_set_getElem?, there]
      rfl
    have stale := tagged.empty index space there free
    refine same ▸ ⟨tagged.replace there (fun _ _ _ => free) stale fun _ => unknown, ?_,
      separated_of_silent (silent _) nofun nofun⟩
    refine Traced.weaken ?_ fun _ _ given => (handedAfter_of_silent (silent _) given).2
    refine traced.replace tagged stale ?_ (fun _ => ⟨rfl, _, rfl⟩)
      (fun i s _ here _ => unknown i s here) ?_
    · rintro _ ⟨⟩
      rfl
    · rintro cpu known tag place active rfl
      obtain ⟨i, s, here, named, _⟩ := tagged.loaded cpu known tag place active
      exact unknown i s here named

theorem release_ensures (root : Nat) : (Asids.release root).Ensures pool fun _ after =>
      Lawful limit ledger handed (.release root) after := by
  refine .gets (.require fun checked => .expect fun index found => .modify ?_)
  obtain ⟨space, there, named⟩ := position_eq_some found
  have idle : ∀ (cpu tag : Nat), pool.active[cpu]? ≠ some (root, tag) := by
    intro cpu tag place
    exact checked (any_eq_true.mpr ⟨_, mem_of_getElem? place, beq_iff_eq.mpr rfl⟩)
  have silent : ∀ tag owner, ¬Hands ledger (.release root) tag owner := by
    rintro tag _ ⟨_, _, _, same, _⟩
    cases same
  refine ⟨tagged.replace there ?_ rfl (fun proper => absurd rfl proper),
    Traced.weaken ?_ fun _ _ given => (handedAfter_of_silent silent given).2,
    separated_of_silent silent nofun nofun⟩
  · intro cpu tag place
    rw [named] at place
    exact absurd place (idle cpu tag)
  · refine traced.replace tagged rfl nofun (fun proper => absurd rfl proper) ?_ ?_
    · intro i s other here proper same
      exact other (tagged.roots i index s space here there (same.trans named.symm) proper)
    · rintro cpu _ tag place _ rfl
      exact idle cpu tag place

/-- Every call that returns is lawful. -/
theorem request_ensures (request : Request) :
    request.run.Ensures pool (Lawful limit ledger handed) := by
  cases request with
  | register root =>
    exact (register_ensures tagged traced root).bind fun _ _ lawful => .pure lawful
  | activate cpu root =>
    exact (activate_ensures tagged traced cpu root).bind fun _ _ lawful => .pure lawful
  | release root =>
    exact (release_ensures tagged traced root).bind fun _ _ lawful => .pure lawful

end

/-! ### Runs -/

theorem not_since_nil : ¬Since [] tag owner := by
  rintro ⟨_, event, _, split, _⟩
  simp at split

/-- What is handed out since the last flush grows by one event. -/
theorem since_concat {events : List Event} (since : Since (events ++ [event]) tag owner) :
    handedAfter (ledgerOf events) (Since events) event tag owner := by
  obtain ⟨before, first, after, split, hands, quiet⟩ := since
  rcases eq_nil_or_concat after with rfl | ⟨between, last, rfl⟩
  · obtain ⟨rfl, same⟩ := append_inj' split rfl
    cases same
    exact Or.inl hands
  · have split : events ++ [event] = (before ++ first :: between) ++ [last] := by
      rw [split, concat_eq_append, append_assoc, cons_append]
    obtain ⟨rfl, same⟩ := append_inj' split rfl
    cases same
    have quiet : ∀ later ∈ between ++ [event], later.flushes = false := by
      rw [← concat_eq_append]
      exact quiet
    exact Or.inr ⟨quiet event (by simp), before, first, between, rfl, hands,
      fun later listed => quiet later (by simp [listed])⟩

/-- A run of calls keeps registrations apart at each of its events. -/
theorem runAll_ensures (requests : List Request) (past : List Event) (pool : Asids)
    (tagged : Tagged limit pool) (traced : Traced (ledgerOf past) (Since past) pool) :
    (runAll requests).Ensures pool fun events _ =>
      ∀ before event after, events = before ++ event :: after →
        Separated limit (ledgerOf (past ++ before)) (Since (past ++ before)) event := by
  induction requests generalizing past pool with
  | nil =>
    refine .pure ?_
    intro before event after wrong
    simp at wrong
  | cons request rest ih =>
    refine (request_ensures tagged traced request).bind fun first middle lawful => ?_
    have recorded : Traced (ledgerOf (past ++ [first])) (Since (past ++ [first])) middle := by
      rw [ledgerOf, foldl_concat]
      exact lawful.traced.weaken fun _ _ => since_concat
    refine (ih (past ++ [first]) middle lawful.tagged recorded).bind ?_
    intro _ _ apart
    refine .pure ?_
    intro before event after split
    cases before with
    | nil =>
      cases split
      rw [append_nil]
      exact lawful.separated
    | cons head tail =>
      obtain ⟨rfl, later⟩ := List.cons.inj split
      have found := apart tail event after later
      rw [append_assoc] at found
      exact found

/-- A new pool keeps its books, and nothing has happened to it. -/
theorem new_sound {spaces cpus bits : Nat} (made : Asids.new spaces cpus bits = .ok pool) :
    Tagged (2 ^ bits - 1) pool ∧ Traced Ledger.empty (Since []) pool := by
  unfold Asids.new at made
  split at made
  case isFalse => cases made
  case isTrue width =>
    cases made
    have low : 2 ^ 1 ≤ 2 ^ bits := Nat.pow_le_pow_right (by omega) width.1
    have high : 2 ^ bits ≤ 2 ^ 16 := Nat.pow_le_pow_right (by omega) width.2
    have blank : ∀ (i : Nat) s, (List.replicate spaces Space.empty)[i]? = some s →
        s = Space.empty :=
      fun i s here => eq_of_mem_replicate (mem_of_getElem? here)
    have idle : ∀ (cpu root tag : Nat),
        (List.replicate cpus ((0, 0) : Nat × Nat))[cpu]? = some (root, tag) → root = 0 :=
      fun cpu root tag here =>
        congrArg Prod.fst (eq_of_mem_replicate (mem_of_getElem? here))
    have first : 1 ≤ 2 ^ bits - 1 := by omega
    refine ⟨⟨rfl, by omega, ⟨Nat.le_refl 1, first⟩, ⟨rfl, rfl⟩, Nat.le_refl 1, ?_, ?_, ?_, ?_,
      ?_, ?_⟩, ⟨?_, nofun, nofun, ?_, ?_, ?_⟩⟩
    · intro i j s t here _ _ proper
      exact absurd (congrArg Space.root (blank i s here)) proper
    · exact fun i s here _ => congrArg Space.generation (blank i s here)
    · intro i s here
      rw [blank i s here]
      exact Nat.zero_le _
    · intro i s here current
      rw [blank i s here] at current
      cases current
    · intro i j s t here _ current
      rw [blank i s here] at current
      cases current
    · exact fun cpu root tag here proper => absurd (idle cpu root tag here) proper
    · exact fun i s here proper => absurd (congrArg Space.root (blank i s here)) proper
    · intro _
      rw [getElem?_replicate]
      split <;> rfl
    · exact fun tag owner since => absurd since not_since_nil
    · exact fun tag owner since => absurd since not_since_nil

/-- Whatever is registered, activated and released on whatever CPUs, the tags handed out keep
registrations apart between two flushes and while they run, and only run out where all of them
are active. -/
theorem isolated_of_run (spaces cpus bits : Nat) (requests : List Request) (pool : Asids)
    (events : List Event) (made : Asids.new spaces cpus bits = .ok pool)
    (run : (runAll requests pool).1 = .ok events) : Isolated bits events := by
  obtain ⟨tagged, traced⟩ := new_sound made
  exact runAll_ensures requests [] pool tagged traced events (runAll requests pool).2
    (Prod.ext run rfl)

/-- A pool of three tags for two CPUs. -/
def smallPool : Asids where
  spaces := List.replicate 4 Space.empty
  active := List.replicate 2 (0, 0)
  used := Function.update (Function.update (fun _ => false) 0 true) 255 true
  limit := 3
  next := 1
  generation := 1

/-- Four registrations share three tags. A root that is registered again does not get its old tag
back, and the last activation needs a rollover, in which both CPUs keep their tags. -/
def sharedTags : List Request :=
  [.register 1, .register 2, .register 3, .activate 0 1, .activate 1 2, .activate 1 0, .release 2,
    .register 2, .activate 1 2, .activate 1 3, .activate 1 0]

theorem isolated_sharedTags :
    Isolated 2 [.register 1 true, .register 2 true, .register 3 true,
      .activate 0 1 (some 1) false, .activate 1 2 (some 2) false, .activate 1 0 (some 0) false,
      .release 2, .register 2 true, .activate 1 2 (some 3) false, .activate 1 3 (some 2) true,
      .activate 1 0 (some 0) false] :=
  isolated_of_run 4 2 2 sharedTags smallPool _ rfl (by decide +kernel)

end Mmurtl.Arm64

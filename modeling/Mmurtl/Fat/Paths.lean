/-
This file describes what can be read from a volume by what its directories list and its
files contain: paths are resolved through the lists of records alone.

So two states of a volume whose directories list the same records and whose files
contain the same bytes read the same for all paths.
-/

import Mmurtl.Fat.Tree

namespace Mmurtl.Fat

open Bytes Outcome List

variable {reached : Dir → Prop} {dir : Dir} {parts : List (List Char)} {path name : List Char}
  {listed : List Record} {record : Record}

/-! ### Resolving paths through lists of records -/

section Resolve

variable [CaseMapping]

/-- Whether a path component names a record. -/
def Record.answers (name : List Char) (record : Record) : Bool :=
  same record.name name || same record.aliasName name

theorem findRecord_eq (data : List UInt8) (kind : Kind) (name : List Char) :
    findRecord data kind name = (records data kind).find? (Record.answers name) := rfl

/-- The record that the components of a path name, and its directory. -/
def resolve (listing : Dir → Option (List Record)) :
    Dir → List (List Char) → Option (Dir × Record)
  | _, [] => none
  | dir, part :: rest =>
    (listing dir).bind fun listed => (listed.find? (Record.answers part)).bind fun record =>
      if rest = [] then some (dir, record)
      else if record.isDir then resolve listing ⟨record.cluster, false⟩ rest
      else none

/-- The directory that the components of a path name. -/
def resolveDir (listing : Dir → Option (List Record)) : Dir → List (List Char) → Option Dir
  | dir, [] => some dir
  | dir, part :: rest =>
    (listing dir).bind fun listed => (listed.find? (Record.answers part)).bind fun record =>
      if record.isDir then resolveDir listing ⟨record.cluster, false⟩ rest else none

/-- A record is found in the directory that the path in front of its last component names. -/
theorem resolve_concat (listing : Dir → Option (List Record)) (dir : Dir)
    (parts : List (List Char)) (name : List Char) :
    resolve listing dir (parts ++ [name]) = (resolveDir listing dir parts).bind fun parent =>
        (listing parent).bind fun listed =>
          (listed.find? (Record.answers name)).map fun record => (parent, record) := by
  induction parts generalizing dir with
  | nil =>
    simp only [nil_append, resolve, resolveDir, if_true, Option.bind_some]
    refine Option.bind_congr fun listed _ => ?_
    cases listed.find? (Record.answers name) <;> rfl
  | cons part rest ih =>
    simp only [cons_append, resolve, resolveDir, append_eq_nil_iff, cons_ne_nil,
      and_false, if_false, Option.bind_assoc]
    refine Option.bind_congr fun listed _ => Option.bind_congr fun record _ => ?_
    split
    · exact ih _
    · rfl

theorem resolveDir_concat (listing : Dir → Option (List Record)) (dir : Dir)
    (parts : List (List Char)) (name : List Char) :
    resolveDir listing dir (parts ++ [name]) = (resolveDir listing dir parts).bind fun parent =>
        (listing parent).bind fun listed => (listed.find? (Record.answers name)).bind fun record =>
          if record.isDir then some ⟨record.cluster, false⟩ else none := by
  induction parts generalizing dir with
  | nil => rfl
  | cons part rest ih =>
    simp only [cons_append, resolveDir, Option.bind_assoc]
    refine Option.bind_congr fun listed _ => Option.bind_congr fun record _ => ?_
    split
    · exact ih _
    · rfl

section

variable {listing : Dir → Option (List Record)}
  (step : ∀ dir listed record, reached dir → listing dir = some listed → record ∈ listed →
    record.isDir = true → reached ⟨record.cluster, false⟩)
include step

/-- What resolves a path: its directory can be reached, and lists the record. -/
theorem resolve_spec {result : Dir × Record} (start : reached dir)
    (found : resolve listing dir parts = some result) :
    reached result.1 ∧ ∃ listed name, listing result.1 = some listed ∧
      parts.getLast? = some name ∧ listed.find? (Record.answers name) = some result.2 := by
  induction parts generalizing dir with
  | nil => cases found
  | cons part rest ih =>
    rw [resolve, Option.bind_eq_some_iff] at found
    obtain ⟨listed, lists, found⟩ := found
    rw [Option.bind_eq_some_iff] at found
    obtain ⟨record, finds, found⟩ := found
    split at found
    · rename_i last
      cases found
      exact ⟨start, listed, part, lists, by rw [last]; rfl, finds⟩
    · rename_i more
      split at found
      · rename_i isDir
        obtain ⟨reachedResult, others, name, listsResult, last, findsResult⟩ := ih
          (step dir listed record start lists (mem_of_find?_eq_some finds) isDir) found
        refine ⟨reachedResult, others, name, listsResult, ?_, findsResult⟩
        obtain ⟨_, _, rfl⟩ := exists_cons_of_ne_nil more
        rw [getLast?_cons_cons]
        exact last
      · cases found

theorem resolveDir_spec {result : Dir} (start : reached dir)
    (found : resolveDir listing dir parts = some result) : reached result := by
  induction parts generalizing dir with
  | nil =>
    cases found
    exact start
  | cons part rest ih =>
    rw [resolveDir, Option.bind_eq_some_iff] at found
    obtain ⟨listed, lists, found⟩ := found
    rw [Option.bind_eq_some_iff] at found
    obtain ⟨record, finds, found⟩ := found
    split at found
    · rename_i isDir
      exact ih
        (step dir listed record start lists (mem_of_find?_eq_some finds) isDir) found
    · cases found

end

end Resolve

/-! ### What a store lists and contains -/

section Listing

variable [CaseMapping]

/-- The records of a directory that the driver reads. -/
def Store.listing (store : Store) (dir : Dir) : Option (List Record) :=
  (store.loadDir dir).toOption.map fun loaded => records loaded.2 store.volume.kind

theorem Store.lookupFrom_toOption (store : Store) (dir : Dir) (parts : List (List Char)) :
    (store.lookupFrom dir parts).toOption = resolve store.listing dir parts := by
  induction parts generalizing dir with
  | nil => rfl
  | cons part rest ih =>
    rw [lookupFrom, resolve, toOption_bind, listing, Option.map_eq_bind, Option.bind_assoc]
    refine Option.bind_congr fun loaded _ => ?_
    simp only [Function.comp_apply, Option.bind_some, findRecord_eq]
    cases (records loaded.2 store.volume.kind).find? (Record.answers part) with
    | none => rfl
    | some record =>
      simp only [Option.bind_some]
      split
      · rfl
      · split
        · exact ih _
        · rfl

theorem Store.lookup_toOption (store : Store) (path : List Char) :
    (store.lookup path).toOption = resolve store.listing store.volume.root (components path) :=
  store.lookupFrom_toOption ..

theorem Store.enter_toOption (store : Store) (dir : Dir) (parts : List (List Char)) :
    (store.enter dir parts).toOption = resolveDir store.listing dir parts := by
  induction parts generalizing dir with
  | nil => rfl
  | cons part rest ih =>
    rw [enter, resolveDir, toOption_bind, listing, Option.map_eq_bind, Option.bind_assoc]
    refine Option.bind_congr fun loaded _ => ?_
    simp only [Function.comp_apply, Option.bind_some, findRecord_eq]
    cases (records loaded.2 store.volume.kind).find? (Record.answers part) with
    | none => rfl
    | some record =>
      simp only [Option.bind_some]
      split
      · exact ih _
      · rfl

/-- The directory and the name that a path ends in. -/
theorem Store.parent_eq_ok {store : Store} :
    store.parent path = .ok (dir, name) ↔ components path = (components path).dropLast ++ [name] ∧
        resolveDir store.listing store.volume.root (components path).dropLast = some dir := by
  rw [parent, ← enter_toOption, toOption_eq_some]
  cases last : (components path).getLast? with
  | none =>
    rw [getLast?_eq_none_iff] at last
    simp [last]
  | some final =>
    have split : components path = (components path).dropLast ++ [final] :=
      (dropLast_append_getLast? final last).symm
    have names : components path = (components path).dropLast ++ [name] ↔ final = name := by
      constructor
      · intro other
        have tails := append_cancel_left (split.symm.trans other)
        exact head_eq_of_cons_eq tails
      · rintro rfl
        exact split
    rw [names]
    simp only [bind_eq_ok, pure_eq, Outcome.ok.injEq, Prod.mk.injEq]
    constructor
    · rintro ⟨_, entered, rfl, rfl⟩
      exact ⟨rfl, entered⟩
    · rintro ⟨rfl, entered⟩
      exact ⟨dir, entered, rfl, rfl⟩

theorem Store.readFile_eq (store : Store) (path : List Char) :
    store.readFile path = (resolve store.listing store.volume.root (components path)).bind
      fun found => (store.data found.2).toOption := by
  rw [readFile, toOption_bind, lookup_toOption]

theorem Store.metadata_eq {store : Store} (working : store.volume.check = .ok ())
    (path : List Char) :
    store.metadata path = (resolve store.listing store.volume.root (components path)).map
      fun found => (found.2.isDir, found.2.size) := by
  rw [metadata, working, ok_bind, toOption_bind, lookup_toOption, Option.map_eq_bind]
  rfl

/-- The directory that a path names. -/
def Store.dirOf (store : Store) (path : List Char) : Option Dir :=
  if components path = [] then some store.volume.root
  else (resolve store.listing store.volume.root (components path)).bind fun found =>
    if found.2.isDir then some ⟨found.2.cluster, false⟩ else none

theorem Store.dirOf_eq (store : Store) (path : List Char) :
    store.dirOf path = resolveDir store.listing store.volume.root (components path) := by
  rw [dirOf]
  rcases eq_nil_or_concat' (components path) with empty | ⟨front, name, split⟩
  · rw [if_pos empty, empty, resolveDir]
  · rw [if_neg (by simp [split]), split, resolve_concat, resolveDir_concat, Option.bind_assoc]
    refine Option.bind_congr fun dir _ => ?_
    rw [Option.bind_assoc]
    refine Option.bind_congr fun listed _ => ?_
    rw [Option.bind_map]
    rfl

omit [CaseMapping] in
/-- The path in front of the last component. -/
theorem components_up (path : List Char) :
    components (path ++ ['/', '.', '.']) = (components path).dropLast := by
  rw [components, splitOnP_append_cons path ['.', '.'] (by decide), foldl_append]
  rfl

theorem Store.directory_toOption (store : Store) (path : List Char) :
    (store.directory path).toOption = store.dirOf path := by
  rw [directory, dirOf]
  split
  · rfl
  · rw [toOption_bind, lookup_toOption]
    refine Option.bind_congr fun found _ => ?_
    simp only
    split <;> rfl

theorem Store.readDir_eq (store : Store) (path : List Char) :
    store.readDir path = ((store.dirOf path).bind store.listing).map fun listed =>
      listed.map fun record => (record.name, record.isDir, record.size) := by
  rw [readDir, toOption_bind, directory_toOption, Option.map_bind]
  refine Option.bind_congr fun dir _ => ?_
  rw [toOption_bind, Function.comp_apply, listing, Option.map_map, Option.map_eq_bind]
  rfl

end Listing

/-! ### Reading any volume -/

section Lookups

variable [CaseMapping] {store : Store}

/-- A record is one of those of a directory. -/
def Store.Lists (store : Store) (dir : Dir) (record : Record) : Prop :=
  ∃ chain data, store.Loads dir chain data ∧ record ∈ records data store.volume.kind

theorem Store.Loads.lists {chain : List Nat} {data : List UInt8}
    (loads : store.Loads dir chain data) {name : List Char}
    (found : findRecord data store.volume.kind name = some record) : store.Lists dir record :=
  ⟨chain, data, loads, mem_of_find?_eq_some found⟩

section

variable (loaded : store.volume.Loaded)
include loaded

theorem lookupFrom_robust (dir : Dir) (parts : List (List Char)) :
    (store.lookupFrom dir parts).Safe fun found => store.Lists found.1 found.2 := by
  induction parts generalizing dir with
  | nil => exact .error _
  | cons part rest ih =>
    refine (loadDir_loads loaded dir).bind fun (chain, data) loads => ?_
    simp only
    cases found : findRecord data store.volume.kind part with
    | none => exact .error _
    | some record =>
      simp only
      split
      · exact .pure (loads.lists found)
      · split
        · exact ih _
        · exact .error _

theorem enter_robust (dir : Dir) (parts : List (List Char)) :
    (store.enter dir parts).Safe fun _ => True := by
  induction parts generalizing dir with
  | nil => exact .pure trivial
  | cons part rest ih =>
    refine (loadDir_loads loaded dir).bind fun (chain, data) loads => ?_
    simp only
    split
    · exact .error _
    · split
      · exact ih _
      · exact .error _

theorem parent_robust (path : List Char) : (store.parent path).Safe fun _ => True := by
  unfold Store.parent
  split
  · exact .error _
  · exact (enter_robust loaded _ _).bind fun dir _ => .pure trivial

end

omit [CaseMapping] in
theorem data_robust (loaded : store.volume.Loaded) (record : Record) :
    (store.data record).Safe fun _ => True := by
  unfold Store.data
  split
  · exact .error _
  · split
    · exact .error _
    · cases found : store.volume.chain record.cluster (maxFile / store.volume.bytes + 1) with
      | error reason => exact .error reason
      | panic => exact absurd found (Volume.chain_safe loaded _ _)
      | ok chain =>
        rw [Outcome.ok_bind]
        split
        · exact .error _
        · exact (store.readClusters_safe _).bind fun data _ => .pure trivial

theorem checkEmpty_robust (loaded : store.volume.Loaded) (record : Record) :
    (store.checkEmpty record).Safe fun _ => True := by
  unfold Store.checkEmpty
  split
  · refine (loadDir_loads loaded _).bind fun (chain, data) loads => ?_
    simp only
    split
    · exact .pure trivial
    · exact .error _
  · exact .pure trivial

end Lookups

/-! ### Reading a volume that works -/

section Reading

variable [CaseMapping] {start limit : Nat} {store : Store}

section

variable (ready : Ready start limit store)
include ready

theorem Ready.listing_eq_some : store.listing dir = some listed ↔
      ∃ chain bytes, store.volume.DirData store.view dir chain bytes ∧
        chain.length ≤ maxMetadata / store.volume.bytes ∧
        listed = records bytes store.volume.kind := by
  rw [Store.listing, Option.map_eq_some_iff]
  constructor
  · rintro ⟨⟨chain, bytes⟩, loaded, rfl⟩
    obtain ⟨data, short⟩ := ready.loadDir_eq_ok_iff.mp (toOption_eq_some.mp loaded)
    exact ⟨chain, bytes, data, short, rfl⟩
  · rintro ⟨chain, bytes, data, short, rfl⟩
    exact ⟨(chain, bytes), toOption_eq_some.mpr (ready.loadDir_eq_ok_iff.mpr ⟨data, short⟩), rfl⟩

theorem Ready.recordIn_of_listing (lists : store.listing dir = some listed) :
    store.volume.RecordIn store.view dir record ↔ record ∈ listed := by
  obtain ⟨_, _, data, _, rfl⟩ := ready.listing_eq_some.mp lists
  exact data.recordIn

/-- The directories on a path can be reached. -/
theorem Ready.live_step (dir : Dir) (listed : List Record) (record : Record)
    (live : store.volume.Live store.view dir) (lists : store.listing dir = some listed)
    (member : record ∈ listed) (isDir : record.isDir = true) :
    store.volume.Live store.view ⟨record.cluster, false⟩ :=
  .child live ((ready.recordIn_of_listing lists).mpr member) isDir

theorem Ready.live_of_parent (parent : store.parent path = .ok (dir, name)) :
    store.volume.Live store.view dir :=
  resolveDir_spec ready.live_step .root (Store.parent_eq_ok.mp parent).2

end

/-- The bytes of a record with a chain. -/
def Layout.contents (layout : Layout) (view : View) (record : Record) (chain : List Nat) :
    Option (List UInt8) :=
  if record.isDir = false ∧ record.size ≤ maxFile ∧ chain.length ≤ maxFile / layout.bytes + 1 ∧
      layout.needed record.size ≤ chain.length then
    some (((chain.take (layout.needed record.size)).flatMap view.data).take record.size)
  else none

omit [CaseMapping] in
theorem Ready.data_toOption (ready : Ready start limit store) {chain : List Nat}
    (linked : store.volume.ChainOf store.view.entry record.cluster chain) :
    (store.data record).toOption = store.volume.contents store.view record chain := by
  rw [Store.data, Layout.contents]
  by_cases isDir : record.isDir = true
  · rw [if_pos isDir, if_neg (by rw [isDir]; exact fun both => absurd both.1 (by decide))]
    rfl
  rw [if_neg isDir]
  by_cases large : record.size > maxFile
  · rw [if_pos large, if_neg (by omega)]
    rfl
  rw [if_neg large]
  by_cases short : chain.length ≤ maxFile / store.volume.bytes + 1
  · rw [ready.chain_eq_ok_iff.mpr ⟨linked, short⟩, ok_bind]
    show Outcome.toOption (if chain.length < store.volume.needed record.size then _ else _) = _
    by_cases few : chain.length < store.volume.needed record.size
    · rw [if_pos few, if_neg (by omega)]
      rfl
    · rw [if_neg few, if_pos ⟨Bool.eq_false_iff.mpr isDir, by omega, short, by omega⟩]
      rw [ready.readClusters_eq fun cluster member => linked.valid (mem_of_mem_take member)]
      rfl
  · rw [if_neg (by omega)]
    rcases ready.chain_cases record.cluster (maxFile / store.volume.bytes + 1) with
      ⟨other, found⟩ | failed
    · obtain ⟨otherLinked, otherShort⟩ := ready.chain_eq_ok_iff.mp found
      rw [otherLinked.unique linked] at otherShort
      exact absurd otherShort short
    · rw [failed]
      rfl

omit [CaseMapping] in
/-- A record that can be read has a chain. -/
theorem Store.chain_of_data {data : List UInt8} (read : store.data record = .ok data) :
    ∃ chain, store.volume.chain record.cluster (maxFile / store.volume.bytes + 1) = .ok chain := by
  unfold Store.data at read
  split at read
  · cases read
  · split at read
    · cases read
    · obtain ⟨chain, walked, _⟩ := bind_eq_ok.mp read
      exact ⟨chain, walked⟩

end Reading

/-! ### Stores that read the same -/

section Agree

variable [CaseMapping] {before after : Store}
  (root : after.volume.root = before.volume.root)
  (lists : ∀ path dir, before.dirOf path = some dir → after.dirOf path = some dir →
    after.listing dir = before.listing dir)
include root lists

/-- All paths lead to the same directories if these list the same. -/
theorem dirOf_congr (path : List Char) : after.dirOf path = before.dirOf path := by
  induction parts : components path using reverseRecOn generalizing path with
  | nil => rw [Store.dirOf_eq, Store.dirOf_eq, parts, resolveDir, resolveDir, root]
  | append_singleton front name ih =>
    have above := components_up path
    rw [parts, dropLast_concat] at above
    have same := ih _ above
    rw [Store.dirOf_eq, Store.dirOf_eq, parts, resolveDir_concat, resolveDir_concat, ← above,
      ← Store.dirOf_eq, ← Store.dirOf_eq, same]
    refine Option.bind_congr fun dir named => ?_
    rw [lists _ dir named (same.trans named)]

/-- All paths lead to the same records. -/
theorem resolve_congr (path : List Char) :
    resolve after.listing after.volume.root (components path) =
      resolve before.listing before.volume.root (components path) := by
  rcases eq_nil_or_concat' (components path) with empty | ⟨front, name, split⟩
  · rw [empty, resolve, resolve]
  · have above := components_up path
    rw [split, dropLast_concat] at above
    have same := dirOf_congr root lists (path ++ ['/', '.', '.'])
    rw [split, resolve_concat, resolve_concat, ← above, ← Store.dirOf_eq, ← Store.dirOf_eq, same]
    refine Option.bind_congr fun dir named => ?_
    rw [lists _ dir named (same.trans named)]

end Agree

section Congr

variable [CaseMapping] {start limit : Nat} {before after : Store}
  (readyBefore : Ready start limit before) (readyAfter : Ready start limit after)
  (layout : after.volume.toLayout = before.volume.toLayout)

include readyBefore readyAfter layout

/-- Everything reads the same if all directories list the same records and all files have the same
contents. -/
theorem reads_congr (lists : ∀ path dir, before.dirOf path = some dir →
      after.listing dir = before.listing dir)
    (files : ∀ path dir record, resolve before.listing before.volume.root (components path) =
      some (dir, record) → record.isDir = false →
      (after.data record).toOption = (before.data record).toOption) (path : List Char) :
    after.readFile path = before.readFile path ∧ after.metadata path = before.metadata path ∧
      after.readDir path = before.readDir path := by
  have root : after.volume.root = before.volume.root := by rw [layout]
  have agree : ∀ path dir, before.dirOf path = some dir → after.dirOf path = some dir →
      after.listing dir = before.listing dir := fun path dir named _ => lists path dir named
  have resolved := resolve_congr root agree path
  refine ⟨?_, ?_, ?_⟩
  · rw [Store.readFile_eq, Store.readFile_eq, resolved]
    refine Option.bind_congr fun (dir, record) resolves => ?_
    by_cases isDir : record.isDir = true
    · rw [Store.data, if_pos isDir, Store.data, if_pos isDir]
    · exact files path dir record resolves (Bool.eq_false_iff.mpr isDir)
  · rw [Store.metadata_eq readyAfter.check_eq, Store.metadata_eq readyBefore.check_eq, resolved]
  · rw [Store.readDir_eq, Store.readDir_eq, dirOf_congr root agree]
    congr 1
    exact Option.bind_congr fun dir named => lists path dir named

end Congr

end Mmurtl.Fat

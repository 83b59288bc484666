/-
This file is about the record of a file that is made to point to new data. All paths lead to
the same directories as before, also on a volume whose directories share clusters, and the
file reads as the new data.
-/

import Mmurtl.Fat.Operations

namespace Mmurtl.Fat

open Bytes List

/-! ### Lists that are related -/

section Lists

variable {α β : Type} {related : β → β → Prop}

theorem forall₂_set {items : List β} {position : Nat} {item new : β}
    (reflexive : ∀ item, related item item) (found : items[position]? = some item)
    (here : related item new) : Forall₂ related items (items.set position new) := by
  induction items generalizing position with
  | nil => cases found
  | cons head tail ih =>
    cases position with
    | zero =>
      cases found
      exact .cons here (forall₂_same.mpr fun item _ => reflexive item)
    | succ position => exact .cons (reflexive head) (ih (getElem?_cons_succ.symm.trans found))

/-- Pieces of the same length are related if and only if what they make up is. -/
theorem forall₂_flatMap {items : List α} {first second : α → List β}
    (lengths : ∀ item ∈ items, (first item).length = (second item).length) :
    Forall₂ related (items.flatMap first) (items.flatMap second) ↔
      ∀ item ∈ items, Forall₂ related (first item) (second item) := by
  induction items with
  | nil => exact ⟨fun _ => nofun, fun _ => .nil⟩
  | cons head tail ih =>
    obtain ⟨same, others⟩ := forall_mem_cons.mp lengths
    rw [flatMap_cons, flatMap_cons, forall_mem_cons, ← ih others]
    constructor
    · intro all
      have front := forall₂_take_append _ _ _ all
      have back := forall₂_drop_append _ _ _ all
      rw [← same, take_left] at front
      rw [← same, drop_left] at back
      exact ⟨front, back⟩
    · exact fun ⟨front, back⟩ => rel_append front back

end Lists

/-! ### Entries that point elsewhere -/

section Entries

variable [CaseMapping] {kind : Kind} {pending : Option LongName} {index : Nat}
  {record new : Record} {name : List Char} {dir result : Dir} {parts : List (List Char)}

/-- An entry is as before, or it is that of a file and has another first cluster and size. -/
def Repointed (entry new : List UInt8) : Prop :=
  new = entry ∨ mark entry = .short ∧ field entry 11 &&& 0x10 = 0 ∧ SameName entry new

/-- A record is as before, or it is that of a file and has another first cluster and size. -/
def Record.Repointed (record new : Record) : Prop :=
  new = record ∨ record.isDir = false ∧
    ∃ cluster size, new = { record with cluster := cluster, size := size }

theorem Record.Repointed.answers (same : record.Repointed new) (name : List Char) :
    new.answers name = record.answers name := by
  rcases same with rfl | ⟨_, _, _, rfl⟩ <;> rfl

theorem readRecords_repointed {items others : List (List UInt8)}
    (same : Forall₂ Repointed items others) :
    Forall₂ Record.Repointed (readRecords kind pending index items)
      (readRecords kind pending index others) := by
  induction same generalizing pending index with
  | nil => exact .nil
  | @cons entry new _ _ here _ ih =>
    rw [readRecords_cons, readRecords_cons]
    rcases here with rfl | ⟨short, file, same⟩
    · cases mark new with
      | finish => exact .nil
      | short => exact .cons (Or.inl rfl) ih
      | deleted => exact ih
      | long => exact ih
      | skipped => exact ih
    · have carried : carry pending index new = carry pending index entry := by
        rw [carry, carry, same.mark, short]
        rfl
      rw [same.mark, short, carried]
      refine .cons (Or.inr ⟨?_, _, _, same.shortRecord kind pending index⟩) ih
      show (field entry 11 &&& 0x10 != 0) = false
      rw [file]
      rfl

theorem find?_repointed {listed others : List Record}
    (same : Forall₂ Record.Repointed listed others)
    (finds : listed.find? (Record.answers name) = some record) :
    ∃ new, others.find? (Record.answers name) = some new ∧ record.Repointed new := by
  induction same with
  | nil => cases finds
  | @cons head new _ _ here _ ih =>
    rw [find?_cons] at finds ⊢
    rw [here.answers]
    cases answers : head.answers name with
    | true =>
      rw [answers] at finds
      cases finds
      exact ⟨new, rfl, here⟩
    | false =>
      rw [answers] at finds
      exact ih finds

/-- Paths lead to the same directories. -/
theorem resolveDir_repointed {listing other : Dir → Option (List Record)}
    (same : ∀ dir listed, listing dir = some listed →
      ∃ others, other dir = some others ∧ Forall₂ Record.Repointed listed others)
    (found : resolveDir listing dir parts = some result) :
    resolveDir other dir parts = some result := by
  induction parts generalizing dir with
  | nil => exact found
  | cons part rest ih =>
    rw [resolveDir, Option.bind_eq_some_iff] at found
    obtain ⟨listed, lists, found⟩ := found
    rw [Option.bind_eq_some_iff] at found
    obtain ⟨record, finds, found⟩ := found
    split at found
    · rename_i isDir
      obtain ⟨others, otherLists, related⟩ := same dir listed lists
      obtain ⟨new, otherFinds, unchanged | ⟨file, _⟩⟩ := find?_repointed related finds
      · rw [resolveDir, otherLists, Option.bind_some, otherFinds, Option.bind_some, unchanged,
          if_pos isDir]
        exact ih found
      · rw [file] at isDir
        cases isDir
    · cases found

end Entries

/-! ### Directories that share clusters -/

section Directories

variable [CaseMapping] {layout : Layout} {before after : View} {dir other : Dir}
  {chain otherChain : List Nat} {bytes new otherBytes : List UInt8}

omit [CaseMapping] in
theorem entries_chain {view : View} (shaped : view.Shaped layout)
    (valid : ∀ cluster ∈ chain, layout.valid cluster = true) :
    entries (chain.flatMap view.data) =
      chain.flatMap fun cluster => entries (view.data cluster) := by
  induction chain with
  | nil => simp [entries]
  | cons cluster rest ih =>
    obtain ⟨here, later⟩ := forall_mem_cons.mp valid
    have whole : entrySize ∣ (view.data cluster).length := by
      rw [shaped.data cluster here]
      exact layout.entrySize_dvd_bytes
    rw [flatMap_cons, flatMap_cons, entries_append whole, ih later]

theorem Rewritten.repointed (rewritten : Rewritten layout dir chain new before after)
    (shapedBefore : before.Shaped layout) (shapedAfter : after.Shaped layout)
    (data : layout.DirData before dir chain bytes)
    (same : Forall₂ Repointed (entries bytes) (entries new))
    (otherData : layout.DirData before other otherChain otherBytes) :
    ∃ otherNew, layout.DirData after other otherChain otherNew ∧
      Forall₂ Repointed (entries otherBytes) (entries otherNew) := by
  have unchanged : ∀ items : List (List UInt8), Forall₂ Repointed items items :=
    fun items => forall₂_same.mpr fun _ _ => Or.inl rfl
  by_cases fixed : layout.fixedRoot other = true
  · obtain ⟨rfl, rfl⟩ := otherData.fixed fixed
    refine ⟨after.root, .of_fixed fixed, ?_⟩
    by_cases root : layout.fixedRoot dir = true
    · rw [(data.fixed root).2, (rewritten.dirData.fixed root).2] at same
      exact same
    · rw [rewritten.root (Bool.eq_false_iff.mpr root)]
      exact unchanged _
  have lengths : ∀ cluster, layout.valid cluster = true →
      (entries (before.data cluster)).length = (entries (after.data cluster)).length := by
    intro cluster valid
    rw [length_entries, length_entries, shapedBefore.data cluster valid,
      shapedAfter.data cluster valid]
  have clusters : ∀ cluster,
      Forall₂ Repointed (entries (before.data cluster)) (entries (after.data cluster)) := by
    intro cluster
    by_cases member : cluster ∈ chain
    · have chained := data.chained_of_mem member
      obtain ⟨_, linked, rfl⟩ := data.chainOf chained
      have valid : ∀ cluster ∈ chain, layout.valid cluster = true := fun _ => linked.valid
      rw [(rewritten.dirData.chainOf chained).2.2, entries_chain shapedBefore valid,
        entries_chain shapedAfter valid, forall₂_flatMap fun cluster member =>
          lengths cluster (valid cluster member)] at same
      exact same cluster member
    · rw [rewritten.data cluster member]
      exact unchanged _
  have chained := Bool.eq_false_iff.mpr fixed
  obtain ⟨nonempty, linked, rfl⟩ := otherData.chainOf chained
  have valid : ∀ cluster ∈ otherChain, layout.valid cluster = true := fun _ => linked.valid
  refine ⟨_, .of_chainOf chained (by rw [rewritten.entry]; exact linked) nonempty, ?_⟩
  rw [entries_chain shapedBefore valid, entries_chain shapedAfter valid]
  exact (forall₂_flatMap fun cluster member => lengths cluster (valid cluster member)).mpr
    fun cluster _ => clusters cluster

end Directories

/-! ### Reading the new data -/

section Reading

variable [CaseMapping] {start limit : Nat} {store after : Store} {dir : Dir} {record : Record}
  {path name : List Char} {data : List UInt8}

/-- A file reads as the data that its record was made to point to. -/
theorem Swapped.readFile_eq
    (swapped : Swapped store.volume.toLayout dir record data store.view after.view)
    (mounted : Mounted start limit store) (works : Works start limit store after)
    (names : Names store path dir name record) (file : record.isDir = false) :
    after.readFile path = some data := by
  obtain ⟨small, written, chain, dirChain, bytes, position, entry, shaped, taken, length, holds,
    dirData, short, slot, rewritten⟩ := swapped
  have layout := works.kept.layout
  have ready := works.mounted.toReady
  obtain ⟨dataWritten, apart⟩ := taken.dirData dirData
  have whole := length_of_entry slot.found
  obtain ⟨inside, rfl⟩ := getElem?_entries_eq_some.mp slot.found
  have related : Forall₂ Repointed (entries bytes) (entries (retargetBytes bytes position
      (chain.head?.getD 0) data.length store.volume.kind)) := by
    rw [retargetBytes, entries_patch (length_retargeted whole ..)
      (by rw [length_entries]; exact inside)]
    refine forall₂_set (fun _ => Or.inl rfl) slot.found (Or.inr ⟨slot.short, ?_,
      sameName_retargeted whole ..⟩)
    rw [slot.record] at file
    exact bne_eq_false_iff_eq.mp file
  have shapedAfter : after.view.Shaped store.volume.toLayout := by
    rw [← layout]
    exact after.shaped
  have listings : ∀ other listed, store.listing other = some listed →
      ∃ others, after.listing other = some others ∧ Forall₂ Record.Repointed listed others := by
    intro other listed lists
    obtain ⟨otherChain, _, otherData, otherShort, rfl⟩ := mounted.listing_eq_some.mp lists
    obtain ⟨otherNew, newData, same⟩ := rewritten.repointed shaped shapedAfter dataWritten related
      (taken.dirData otherData).1
    rw [← layout] at newData otherShort
    exact ⟨_, ready.listing_eq_some.mpr ⟨_, _, newData, otherShort, rfl⟩, by
      rw [layout]; exact readRecords_repointed same⟩
  obtain ⟨split, entered⟩ := Store.parent_eq_ok.mp names.parent
  obtain ⟨_, lists, finds⟩ := names.listed
  obtain ⟨_, _, otherData, _, rfl⟩ := mounted.listing_eq_some.mp lists
  obtain ⟨rfl, rfl⟩ := dirData.unique otherData
  have listed : after.listing dir = some ((records bytes store.volume.kind).map
      (Record.retarget record.offset (chain.head?.getD 0) data.length)) := by
    rw [← records_retargetBytes slot (mounted.placed.first_lt_modulus taken.linked)
      (by unfold maxFile at small; omega), ← layout]
    refine ready.listing_eq_some.mpr ⟨dirChain, _, ?_, ?_, rfl⟩
    · rw [layout]
      exact rewritten.dirData
    · rw [layout]
      exact short
  have answers : Record.answers name ∘ Record.retarget record.offset (chain.head?.getD 0)
      data.length = Record.answers name := by
    funext other
    rw [Function.comp_apply, Record.retarget]
    split <;> rfl
  have target : Names after path dir name
      { record with cluster := chain.head?.getD 0, size := data.length } := by
    refine ⟨Store.parent_eq_ok.mpr ⟨split, ?_⟩, _, listed, ?_⟩
    · rw [layout]
      exact resolveDir_repointed listings entered
    · rw [find?_map, answers, finds]
      exact congrArg some (if_pos rfl)
  have linked : after.volume.ChainOf after.view.entry (chain.head?.getD 0) chain := by
    rw [layout, rewritten.entry]
    exact taken.linked
  have same : chain.flatMap after.view.data = chain.flatMap written.data :=
    flatMap_congr fun cluster member =>
      rewritten.data cluster fun inDir => apart cluster inDir member
  rw [Store.readFile_eq, target.resolves, Option.bind_some]
  refine (ready.data_toOption linked).trans ?_
  rw [layout, Layout.contents, if_pos ⟨file, small, by
    rw [length]; exact mounted.needed_short small, Nat.le_of_eq length.symm⟩, ← length, take_length,
    same]
  exact congrArg some holds

end Reading

end Mmurtl.Fat

/-
This file is about what a failed operation leaves behind, and when it can be noticed.

If only free clusters have changed, nothing can be. If a directory stays longer by a cluster of
zeros, other chains may have become longer with it, or may lead into the new cluster where they
were broken before. This is noticed if a path names a directory or file with such a chain, and
the chain now has a length that can be read or no longer has one.
-/

import Mmurtl.Fat.Operations

namespace Mmurtl.Fat

open Bytes List

variable {layout : Layout} {before after : View} {dir : Dir} {record : Record} {holder : Holder}
  {first last new cluster : Nat} {chain : List Nat} {bytes : List UInt8} {fits : Nat → Prop}

/-! ### Chains that become longer -/

/-- All chains are as before, or are followed by zeros. -/
structure Stretched (layout : Layout) (before after : View) : Prop where
  chains : ∀ first chain, layout.ChainOf before.entry first chain → ∃ tail count,
    layout.ChainOf after.entry first (chain ++ tail) ∧
    (chain ++ tail).flatMap after.data = chain.flatMap before.data ++ List.replicate count 0
  root : after.root = before.root

section Stretched

variable [CaseMapping] (stretched : Stretched layout before after)
  (shaped : before.Shaped layout)
include stretched shaped

theorem Stretched.recordIn (found : layout.RecordIn before dir record) :
    layout.RecordIn after dir record := by
  obtain ⟨chain, bytes, data, member⟩ := found
  by_cases fixed : layout.fixedRoot dir = true
  · obtain ⟨rfl, rfl⟩ := data.fixed fixed
    rw [← stretched.root] at member
    exact ⟨[], after.root, .of_fixed fixed, member⟩
  have chained := Bool.eq_false_iff.mpr fixed
  have aligned := data.entrySize_dvd shaped
  obtain ⟨nonempty, linked, rfl⟩ := data.chainOf chained
  obtain ⟨tail, count, longer, contents⟩ := stretched.chains _ _ linked
  refine ⟨_, _, .of_chainOf chained longer (append_ne_nil_of_left_ne_nil nonempty _), ?_⟩
  rw [contents, records_append_zeros aligned]
  exact member

theorem Stretched.live (live : layout.Live before dir) : layout.Live after dir := by
  induction live with
  | root => exact .root
  | child _ found isDir ih => exact .child ih (stretched.recordIn shaped found) isDir

theorem Stretched.held (held : layout.Held before 0 holder first) :
    layout.Held after 0 holder first := by
  cases held with
  | root chained => exact .root chained
  | record live found =>
    exact .record (stretched.live shaped live) (stretched.recordIn shaped found)
  | pending => exact .pending

/-- No cluster that was in use is lost. -/
theorem Stretched.stray (used : before.entry cluster ≠ 0) (stray : layout.Stray after 0 cluster) :
    layout.Stray before 0 cluster := by
  obtain ⟨valid, _, unheld⟩ := stray
  refine ⟨valid, used, ?_⟩
  rintro holder chain ⟨first, held, linked⟩ member
  obtain ⟨tail, _, longer, _⟩ := stretched.chains _ _ linked
  exact unheld holder _ ⟨first, stretched.held shaped held, longer⟩ (mem_append_left tail member)

end Stretched

/-! ### Clusters that are used as before -/

/-- All links are as before, and all clusters that are not free have the same contents. -/
structure Alike (before after : View) : Prop where
  entry : after.entry = before.entry
  data : ∀ cluster, before.entry cluster ≠ 0 → after.data cluster = before.data cluster
  root : after.root = before.root

theorem Alike.of_eq (same : after = before) : Alike before after :=
  ⟨congrArg View.entry same, fun _ _ => by rw [same], congrArg View.root same⟩

section Alike

variable (alike : Alike before after)
include alike

theorem Alike.stretched (layout : Layout) : Stretched layout before after := by
  refine ⟨fun first chain linked => ⟨[], 0, ?_, ?_⟩, alike.root⟩
  · rw [append_nil, alike.entry]
    exact linked
  · rw [append_nil, replicate_zero, append_nil]
    exact flatMap_congr fun cluster member => alike.data cluster (linked.entry_ne_zero member)

end Alike

theorem Taken.alike {written : View} (taken : Taken layout before written chain)
    (released : Released written after chain) : Alike before after := by
  have agrees := taken.agrees.trans released.agrees
  refine ⟨funext fun cluster => ?_, fun cluster used => agrees.data cluster fun member =>
    used (taken.free cluster member), agrees.root⟩
  by_cases member : cluster ∈ chain
  · rw [released.free cluster member, taken.free cluster member]
  · exact agrees.entry cluster member

/-! ### A cluster behind another -/

/-- A free cluster was filled with zeros and put behind the last cluster of a chain. -/
structure Extended (layout : Layout) (last new : Nat) (before after : View) : Prop where
  ended : layout.link before.entry last = .stop
  free : before.entry new = 0
  next : layout.link after.entry last = .next new
  stop : layout.link after.entry new = .stop
  entry : ∀ cluster, cluster ≠ last → cluster ≠ new → after.entry cluster = before.entry cluster
  data : ∀ cluster, before.entry cluster ≠ 0 → after.data cluster = before.data cluster
  zeros : after.data new = List.replicate layout.bytes 0
  root : after.root = before.root

/-- Whether a chain has a length that can be read. -/
def Layout.Fits (layout : Layout) (entry : Nat → Nat) (first : Nat) (fits : Nat → Prop) : Prop :=
  ∃ chain, layout.ChainOf entry first chain ∧ fits chain.length

/-- What is read along a chain if it has such a length. -/
def Layout.Reads {β : Type} (layout : Layout) (entry : Nat → Nat) (first : Nat)
    (fits : Nat → Prop) (contents : List Nat → β) (reading : Option β) : Prop :=
  ∀ value, reading = some value ↔
    ∃ chain, layout.ChainOf entry first chain ∧ fits chain.length ∧ value = contents chain

section

variable {β : Type} {entry : Nat → Nat} {contents other : List Nat → β} {reading later : Option β}
  (reads : layout.Reads entry first fits contents reading)
include reads

theorem Layout.Reads.congr (readsLater : layout.Reads entry first fits other later)
    (same : ∀ chain, layout.ChainOf entry first chain → other chain = contents chain) :
    later = reading := by
  refine Option.ext fun value => ?_
  rw [reads, readsLater]
  refine exists_congr fun chain => and_congr_right fun linked => ?_
  rw [same chain linked]

end

section Extended

variable (extended : Extended layout last new before after)
include extended

theorem Extended.link_eq (element : Nat) (notLast : element ≠ last) (notNew : element ≠ new) :
    layout.link after.entry element = layout.link before.entry element := by
  rw [Layout.link, Layout.link, extended.entry element notLast notNew]

theorem Extended.not_mem (linked : layout.ChainOf before.entry first chain) : new ∉ chain :=
  fun member => linked.entry_ne_zero member extended.free

/-- A chain that ends elsewhere is as before. -/
theorem Extended.chain_kept (linked : layout.ChainOf before.entry first chain)
    (ends : chain.getLast? ≠ some last) : layout.ChainOf after.entry first chain := by
  refine linked.congr fun cluster member => extended.entry cluster ?_ ?_
  · rintro rfl
    exact ends ((linked.linked_of_mem member).getLast?_of_stop member extended.ended)
  · rintro rfl
    exact extended.not_mem linked member

theorem Extended.chain_longer (linked : layout.ChainOf before.entry first chain)
    (ends : chain.getLast? = some last) : layout.ChainOf after.entry first (chain ++ [new]) := by
  refine Or.inr ((linked.linked_of_mem (mem_of_getLast? ends)).snoc ends
    (fun element member notLast => extended.link_eq element notLast ?_) extended.next
    extended.stop)
  rintro rfl
  exact extended.not_mem linked member

/-- What a chain was before. -/
theorem Extended.chain_cases (linked : layout.ChainOf after.entry first chain) :
    layout.ChainOf before.entry first chain ∨ ∃ front, chain = front ++ [new] ∧
      (layout.ChainOf before.entry first front ∧ front.getLast? = some last ∨
        Linked (Function.update (layout.link before.entry) new .stop) first (front ++ [new])) := by
  rcases linked with none | linked
  · exact Or.inl (Or.inl none)
  · rcases linked.cases_snoc extended.ended extended.link_eq extended.next extended.stop with
      old | ⟨front, split, ⟨old, ends⟩ | joined⟩
    · exact Or.inl (Or.inr old)
    · exact Or.inr ⟨front, split, Or.inl ⟨Or.inr old, ends⟩⟩
    · exact Or.inr ⟨front, split, Or.inr joined⟩

theorem Extended.contents (linked : layout.ChainOf before.entry first chain) :
    chain.flatMap after.data = chain.flatMap before.data :=
  flatMap_congr fun cluster member => extended.data cluster (linked.entry_ne_zero member)

theorem Extended.stretched : Stretched layout before after := by
  refine ⟨fun first chain linked => ?_, extended.root⟩
  by_cases ends : chain.getLast? = some last
  · refine ⟨[new], layout.bytes, extended.chain_longer linked ends, ?_⟩
    rw [flatMap_append, flatMap_singleton, extended.zeros, extended.contents linked]
  · refine ⟨[], 0, ?_, ?_⟩
    · rw [append_nil]
      exact extended.chain_kept linked ends
    · rw [append_nil, replicate_zero, append_nil, extended.contents linked]

end Extended

/-! ### What is noticed -/

section Noticed

variable [CaseMapping] {start limit : Nat} {store after : Store}

/-- Everything reads as before, and no cluster was lost. -/
structure Unnoticed (before after : Store) : Prop where
  reads : ∀ path, after.readFile path = before.readFile path ∧
    after.metadata path = before.metadata path ∧ after.readDir path = before.readDir path
  strays : ∀ cluster, after.volume.Stray after.view 0 cluster →
    before.volume.Stray before.view 0 cluster

/-- Whether a directory with some clusters can be read. -/
def Layout.dirFits (layout : Layout) (count : Nat) : Prop :=
  0 < count ∧ count ≤ maxMetadata / layout.bytes

/-- Whether a file of a size can be read from some clusters. -/
def Layout.fileFits (layout : Layout) (size count : Nat) : Prop :=
  size ≤ maxFile ∧ layout.needed size ≤ count ∧ count ≤ maxFile / layout.bytes + 1

theorem Ready.reads_listing (ready : Ready start limit store)
    (chained : store.volume.fixedRoot dir = false) :
    store.volume.Reads store.view.entry dir.cluster store.volume.dirFits
      (fun chain => records (chain.flatMap store.view.data) store.volume.kind)
      (store.listing dir) := by
  intro listed
  rw [ready.listing_eq_some]
  constructor
  · rintro ⟨chain, bytes, data, short, rfl⟩
    obtain ⟨nonempty, linked, rfl⟩ := data.chainOf chained
    exact ⟨chain, linked, ⟨length_pos_iff.mpr nonempty, short⟩, rfl⟩
  · rintro ⟨chain, linked, ⟨some_, short⟩, rfl⟩
    exact ⟨chain, _, .of_chainOf chained linked (length_pos_iff.mp some_), short, rfl⟩

omit [CaseMapping] in
theorem Ready.reads_data (ready : Ready start limit store) (file : record.isDir = false) :
    store.volume.Reads store.view.entry record.cluster (store.volume.fileFits record.size)
      (fun chain => ((chain.take (store.volume.needed record.size)).flatMap store.view.data).take
        record.size) (store.data record).toOption := by
  intro data
  constructor
  · intro read
    obtain ⟨chain, walked⟩ := Store.chain_of_data (Outcome.toOption_eq_some.mp read)
    have linked := (ready.chain_eq_ok_iff.mp walked).1
    rw [ready.data_toOption linked, Layout.contents] at read
    split at read
    · rename_i conditions
      obtain ⟨_, small, short, enough⟩ := conditions
      cases read
      exact ⟨chain, linked, ⟨small, enough, short⟩, rfl⟩
    · cases read
  · rintro ⟨chain, linked, ⟨small, enough, short⟩, rfl⟩
    rw [ready.data_toOption linked, Layout.contents, if_pos ⟨file, small, short, enough⟩]

section

variable (mounted : Mounted start limit store) (works : Works start limit store after)
include mounted works

theorem Works.listing_of_fixed (fixed : store.volume.fixedRoot dir = true)
    (root : after.view.root = store.view.root) : after.listing dir = store.listing dir := by
  refine Option.ext fun listed => ?_
  rw [works.mounted.listing_eq_some, mounted.listing_eq_some, works.kept.layout]
  simp only [Layout.DirData, if_pos fixed, root]

/-- Stores whose clusters in use are the same cannot be told apart. -/
theorem Alike.unnoticed (alike : Alike store.view after.view) : Unnoticed store after := by
  have layout := works.kept.layout
  have ready := works.mounted.toReady
  refine ⟨reads_congr mounted.toReady ready layout (fun _ dir _ => ?_)
    (fun _ _ record _ file => ?_), fun cluster stray => ?_⟩
  · by_cases fixed : store.volume.fixedRoot dir = true
    · exact works.listing_of_fixed mounted fixed alike.root
    have chained := Bool.eq_false_iff.mpr fixed
    have later := ready.reads_listing (by rw [layout]; exact chained)
    rw [layout, alike.entry] at later
    refine (mounted.reads_listing chained).congr later fun chain linked => ?_
    rw [flatMap_congr fun cluster member => alike.data cluster (linked.entry_ne_zero member)]
  · have later := ready.reads_data file
    rw [layout, alike.entry] at later
    refine (mounted.reads_data file).congr later fun chain linked => ?_
    rw [flatMap_congr fun cluster member =>
      alike.data cluster (linked.entry_ne_zero (mem_of_mem_take member))]
  · rw [layout] at stray
    exact (alike.stretched _).stray store.shaped (alike.entry ▸ stray.2.1) stray

section

variable (extended : Extended store.volume.toLayout last new store.view after.view)
include extended

end

end

theorem Outgrown.extended (outgrown : Outgrown store last new after) :
    Extended store.volume.toLayout last new store.view after.view := by
  obtain ⟨dir, dirChain, bytes, written, left, chain, _, data, _, ends, taken, grow, released⟩ :=
    outgrown
  have linked := (data.chainOf grow.chained).2.1
  have apart := (taken.dirData data).2
  have lastMember := mem_of_getLast? ends
  have lastAway := apart last lastMember
  have newAway : new ∉ chain := fun member => taken.linked.entry_ne_zero member grow.free
  have newEntry : store.view.entry new = 0 := by
    rw [← taken.agrees.entry new newAway]
    exact grow.free
  have grown := grow.extended.linked_of_mem (mem_append_left [new] lastMember)
  refine ⟨(linked.linked_of_mem lastMember).stop_of_getLast? ends, newEntry, ?_, ?_, ?_, ?_, ?_,
    released.agrees.root.trans (grow.root.trans taken.agrees.root)⟩
  · rw [Layout.link, released.agrees.entry last lastAway]
    exact grown.next_of_concat rfl ends
  · rw [Layout.link, released.agrees.entry new newAway]
    exact grown.stop_of_getLast? getLast?_concat
  · intro cluster notLast notNew
    by_cases member : cluster ∈ chain
    · rw [released.free cluster member, taken.free cluster member]
    · rw [released.agrees.entry cluster member, grow.entry cluster notNew (by
        rw [ends]; exact fun same => notLast (Option.some.inj same).symm),
        taken.agrees.entry cluster member]
  · intro cluster used
    have away : cluster ∉ chain := fun member => used (taken.free cluster member)
    rw [released.data, grow.data cluster (by rintro rfl; exact used newEntry),
      taken.agrees.data cluster away]
  · rw [released.data, grow.zeros]

/-- The new cluster is not lost, as the directory has it. -/
theorem Outgrown.strays (outgrown : Outgrown store last new after)
    (stray : store.volume.Stray after.view 0 cluster) :
    store.volume.Stray store.view 0 cluster := by
  have extended := outgrown.extended
  have stretched := extended.stretched
  obtain ⟨dir, dirChain, _, _, _, _, live, data, _, ends, _, grow, _⟩ := outgrown
  have linked := (data.chainOf grow.chained).2.1
  refine stretched.stray store.shaped ?_ stray
  by_cases isLast : cluster = last
  · rw [isLast]
    exact linked.entry_ne_zero (mem_of_getLast? ends)
  by_cases isNew : cluster = new
  · obtain ⟨_, holderOf⟩ := live.holderOf grow.chained
    refine absurd ?_ (stray.2.2 _ _ ⟨_, stretched.held store.shaped (holderOf.held 0),
      extended.chain_longer linked ends⟩)
    rw [isNew]
    exact mem_append_right _ (mem_singleton_self new)
  · rw [← extended.entry cluster isLast isNew]
    exact stray.2.1

end Noticed

end Mmurtl.Fat

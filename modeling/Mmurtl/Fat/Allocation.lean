/-
This file proves what taking and releasing clusters does to a mounted volume.

A mounted volume keeps a ledger: the number of free clusters, a hint where to look for
them, and copies of both in the FSInfo sectors. Taking clusters links free clusters
into a chain, releasing a chain makes its clusters free, and both leave the ledger
right. If the device fails on the way, only those clusters can be affected.
-/

import Mmurtl.Fat.Chain

namespace Mmurtl.Fat

open Bytes List

variable {layout : Layout} {cluster lba first : Nat} {rest : List Nat}

/-! ### The ledger -/

/-- The number of clusters whose entry is zero. -/
def Layout.freeIn (layout : Layout) (entry : Nat → Nat) : Nat :=
  (List.range' 2 layout.clusters).countP fun cluster => entry cluster == 0

/-- What a mounted volume knows about its free clusters is true. -/
structure Ledger (store : Store) : Prop where
  count : store.volume.freeCount = store.volume.freeIn store.view.entry
  hint_ge : 2 ≤ store.volume.hint
  hint_lt : store.volume.hint < store.volume.clusters + 2
  info : ∀ lba ∈ store.volume.infoLbas, lba ∈ store.disk.log →
    signed (store.disk.sector lba).val = true →
      u32le (store.disk.sector lba).val 488 = store.volume.freeCount

/-- A volume that works and knows its free clusters. -/
structure Mounted (start limit : Nat) (store : Store) : Prop extends
  Ready start limit store, Ledger store

variable {start limit : Nat} {before after : Store}

theorem Ledger.of_moved (ledger : Ledger before) (placed : before.volume.Placed start limit)
    (moved : Moved start limit before after)
    (free : before.volume.freeIn after.view.entry = before.volume.freeIn before.view.entry) :
    Ledger after := by
  have layout := moved.kept.layout
  have quiet := moved.quiet
  refine ⟨?_, ?_, ?_, fun lba member logged stamped => ?_⟩
  · rw [quiet.freeCount, layout, free]
    exact ledger.count
  · rw [quiet.hint]
    exact ledger.hint_ge
  · rw [quiet.hint, layout]
    exact ledger.hint_lt
  · rw [layout] at member
    obtain ⟨sector, log⟩ := quiet.reserved lba (placed.info lba member).2
    rw [sector] at stamped ⊢
    rw [quiet.freeCount]
    exact ledger.info lba member (log.mp logged) stamped

theorem Mounted.moved (mounted : Mounted start limit before)
    (moved : Moved start limit before after)
    (free : before.volume.freeIn after.view.entry = before.volume.freeIn before.view.entry) :
    Mounted start limit after :=
  ⟨moved.ready, mounted.toLedger.of_moved mounted.placed moved free⟩

theorem Layout.mem_clusters :
    cluster ∈ List.range' 2 layout.clusters ↔ layout.valid cluster = true := by
  rw [mem_range'_1, Layout.valid_iff]
  omega

theorem Layout.freeIn_le (layout : Layout) (entry : Nat → Nat) :
    layout.freeIn entry ≤ layout.clusters :=
  Nat.le_trans countP_le_length (Nat.le_of_eq length_range')

/-- A duplicate-free list of numbers is counted once each. -/
theorem countP_mem {items chosen : List Nat} (distinct : items.Nodup)
    (chosenDistinct : chosen.Nodup)
    (inside : chosen ⊆ items) :
    items.countP (fun item => decide (item ∈ chosen)) = chosen.length := by
  rw [countP_eq_length_filter]
  refine List.Perm.length_eq ((perm_ext_iff_of_nodup (distinct.filter _) chosenDistinct).mpr ?_)
  intro _
  rw [mem_filter, decide_eq_true_eq]
  exact ⟨And.right, fun member => ⟨inside member, member⟩⟩

/-- Taking some free clusters leaves the others free. -/
theorem Layout.freeIn_take {before after : Nat → Nat} {taken : List Nat} (distinct : taken.Nodup)
    (valid : ∀ cluster ∈ taken, layout.valid cluster = true)
    (free : ∀ cluster ∈ taken, before cluster = 0) (used : ∀ cluster ∈ taken, after cluster ≠ 0)
    (same : ∀ cluster, cluster ∉ taken → after cluster = before cluster) :
    layout.freeIn after + taken.length = layout.freeIn before := by
  have split : ∀ clusters : List Nat,
      clusters.countP (fun cluster => before cluster == 0) =
        clusters.countP (fun cluster => after cluster == 0) +
          clusters.countP (fun cluster => decide (cluster ∈ taken)) := by
    intro clusters
    induction clusters with
    | nil => rfl
    | cons cluster rest ih =>
      simp only [countP_cons, ih]
      by_cases member : cluster ∈ taken
      · simp only [free cluster member, used cluster member, member, beq_self_eq_true, beq_iff_eq,
          decide_true, if_true, if_false]
        omega
      · simp only [same cluster member, member, decide_false, Bool.false_eq_true, if_false]
        omega
  have chosen : (List.range' 2 layout.clusters).countP (fun cluster => decide (cluster ∈ taken)) =
      taken.length :=
    countP_mem nodup_range' distinct fun cluster member => mem_clusters.mpr (valid cluster member)
  rw [freeIn, freeIn, split, chosen]

/-! ### The stored hints -/

/-- Only reserved sectors other than the boot sector changed. -/
structure ReservedOnly (start : Nat) (before after : Store) : Prop where
  layout : after.volume.toLayout = before.volume.toLayout
  fat : after.volume.fat = before.volume.fat
  capacity : after.disk.capacity = before.disk.capacity
  faults : after.disk.faults = before.disk.faults
  boot : after.disk.sector start = before.disk.sector start
  behind : ∀ lba, before.volume.fatLba ≤ lba → after.disk.sector lba = before.disk.sector lba

namespace ReservedOnly

variable (only : ReservedOnly start before after)

include only

theorem kept : Kept start before after := ⟨only.layout, only.capacity, only.faults, only.boot⟩

theorem deviceFat (placed : before.volume.Placed start limit) :
    after.deviceFat = before.deviceFat := by
  rw [Store.deviceFat, only.layout]
  exact Disk.contents_congr fun lba member =>
    only.behind lba (placed.fat_region placed.active member).1

theorem view (placed : before.volume.Placed start limit) : after.view = before.view := by
  rw [Store.view, only.layout, only.fat]
  exact placed.view_congr _ fun lba above =>
    only.behind lba (Nat.le_trans placed.fatLba_le_rootLba above)

theorem ready (ready : Ready start limit before) (working : after.volume.failed = false) :
    Ready start limit after where
  placed := by
    rw [only.layout]
    exact ready.placed
  inside := by
    rw [only.capacity]
    exact ready.inside
  synced := by
    rw [only.fat, only.deviceFat ready.placed]
    exact ready.synced
  working := working

theorem stopped (ready : Ready start limit before) (failed : after.volume.failed = true)
    (unreliable : ¬before.disk.Reliable) (touched : Nat → Prop) :
    Stopped start touched before after := by
  refine ⟨failed, unreliable, only.kept, ?_⟩
  have same : after.deviceView = before.view := by
    rw [Store.deviceView, only.layout, only.deviceFat ready.placed, ← ready.synced]
    exact ready.placed.view_congr _ fun lba above =>
      only.behind lba (Nat.le_trans ready.placed.fatLba_le_rootLba above)
  rw [same]
  exact View.AgreesOff.refl ..

end ReservedOnly

/-- A turn of the loops that change the FSInfo sectors. -/
def restamp (change : List UInt8 → List UInt8) (lba : Nat) : Driver Unit := do
  let data ← .reads fun store => store.sector lba
  if signed data then writeSector lba (change data) else pure ()

/-- The volume is as before, and every signed FSInfo sector that is done was changed. -/
structure Stamped (start : Nat) (change : List UInt8 → List UInt8) (before : Store)
    (rest : List Nat) (after : Store) : Prop where
  only : ReservedOnly start before after
  volume : after.volume = before.volume
  inside : ∀ lba ∈ rest, lba ∈ before.volume.infoLbas
  done : ∀ lba ∈ before.volume.infoLbas, lba ∈ rest ∨
    (signed (after.disk.sector lba).val = true →
      ∃ data, data.length = sectorSize ∧ (after.disk.sector lba).val = change data)

variable {store : Store}

theorem Store.sector_of_lt (inside : lba < store.disk.capacity) :
    store.sector lba = .ok (store.disk.sector lba).val := by
  rw [Store.sector, Fat.sector, Disk.read_of_lt inside]

section Hints

variable {change : List UInt8 → List UInt8}

theorem Ready.info_lt (ready : Ready start limit store) (member : lba ∈ store.volume.infoLbas) :
    lba < store.disk.capacity := by
  have below := (ready.placed.info lba member).2
  have inside := ready.inside
  have room := ready.placed.clusters
  have table := ready.placed.fatLba_le_rootLba
  have root := ready.placed.rootLba_le_dataLba
  omega

section

variable (ready : Ready start limit store)
  (whole : ∀ data, data.length = sectorSize → (change data).length = sectorSize)
include ready whole

theorem restamp_meets (stamped : Stamped start change store (lba :: rest) before) :
    (restamp change lba).Meets before (fun _ after => Stamped start change store rest after)
      (fun _ after => Stopped start (fun _ => False) store after) := by
  have member := stamped.inside lba mem_cons_self
  have bounds := ready.placed.info lba member
  have found : before.sector lba = .ok (before.disk.sector lba).val :=
    Store.sector_of_lt (by rw [stamped.only.capacity]; exact ready.info_lt member)
  have others := (forall_mem_cons.mp stamped.inside).2
  refine .step (Prod.ext found rfl) ?_
  refine .ite (fun marked => ?_) fun marked => ?_
  · have working : before.volume.failed = false := by
      rw [stamped.volume]
      exact ready.working
    have length := whole _ (before.disk.length_sector lba)
    refine (writeSector_meets working lba length).mono ?_ ?_
    · rintro _ _ rfl
      have away : ∀ other, other ≠ lba →
          (before.disk.put lba (Sector.of (change (before.disk.sector lba).val))).sector other =
            before.disk.sector other :=
          fun other different => before.disk.put_sector_of_ne _ different
      refine ⟨⟨stamped.only.layout, stamped.only.fat, stamped.only.capacity, stamped.only.faults,
        (away start (by omega)).trans stamped.only.boot, fun other behind =>
        (away other (by omega)).trans (stamped.only.behind other behind)⟩, stamped.volume, others,
        fun other info => ?_⟩
      by_cases here : other = lba
      · subst here
        refine Or.inr fun _ => ⟨_, before.disk.length_sector other, ?_⟩
        rw [Disk.put_sector_self, Sector.of_val length]
      · rw [away other here]
        exact (stamped.done other info).imp_left fun later =>
          (mem_cons.mp later).resolve_left here
    · rintro _ ⟨_, _⟩ ⟨rfl, rfl, outside⟩
      have only : ReservedOnly start store
          ⟨before.disk.refuse lba, { before.volume with failed := true }⟩ :=
        ⟨stamped.only.layout, stamped.only.fat, stamped.only.capacity, stamped.only.faults,
          stamped.only.boot, stamped.only.behind⟩
      refine only.stopped ready rfl (fun reliable => ?_) _
      have far := outside (stamped.only.kept.reliable reliable)
      rw [stamped.only.capacity] at far
      exact Nat.not_lt.mpr far (ready.info_lt member)
  · refine ⟨stamped.only, stamped.volume, others, fun other info => ?_⟩
    by_cases here : other = lba
    · subst here
      exact Or.inr fun signature => absurd signature marked
    · exact (stamped.done other info).imp_left fun later =>
        (mem_cons.mp later).resolve_left here

theorem forEach_restamp_meets :
    (Program.forEach store.volume.infoLbas (restamp change)).Meets store
      (fun _ after => Stamped start change store [] after)
      (fun _ after => Stopped start (fun _ => False) store after) := by
  refine Program.Meets.forEach (Stamped start change store) ?_ fun lba rest before stamped =>
    restamp_meets ready whole stamped
  exact ⟨⟨rfl, rfl, rfl, rfl, rfl, fun _ _ => rfl⟩, rfl, fun _ member => member,
    fun _ member => Or.inl member⟩

end

/-- The volume works as before; only what is stored about the hints changed. -/
structure Noted (start : Nat) (before after : Store) : Prop where
  only : ReservedOnly start before after
  working : after.volume.failed = false
  hint : after.volume.hint = before.volume.hint
  freeCount : after.volume.freeCount = before.volume.freeCount

theorem Noted.ready (noted : Noted start before after) (ready : Ready start limit before) :
    Ready start limit after :=
  noted.only.ready ready noted.working

theorem invalidateHints_meets (ready : Ready start limit store) :
    invalidateHints.Meets store (fun _ after => Noted start store after)
      (fun _ after => Stopped start (fun _ => False) store after) := by
  have same : ReservedOnly start store store := ⟨rfl, rfl, rfl, rfl, rfl, fun _ _ => rfl⟩
  refine .gets ?_
  refine .ite (fun invalid => ?_) fun invalid => ?_
  · exact .pure ⟨same, ready.working, rfl, rfl⟩
  · refine .bind (forEach_restamp_meets ready fun data length => ?_) fun _ after stamped => ?_
    · rw [length_patch (by rw [length]; decide), length]
    · have volume := stamped.volume
      refine .of_ok (Program.run_modify ..) ⟨?_, ?_, ?_, ?_⟩
      · exact ⟨stamped.only.layout, stamped.only.fat, stamped.only.capacity, stamped.only.faults,
          stamped.only.boot, stamped.only.behind⟩
      · rw [volume]
        exact ready.working
      · rw [volume]
      · rw [volume]

/-- An FSInfo sector with the number of free clusters and the hint. -/
def stamp (count hint : Nat) (data : List UInt8) : List UInt8 :=
  patch (patch data 488 (le32 count)) 492 (le32 hint)

section Stamp

variable {data : List UInt8} (length : data.length = sectorSize) (count hint : Nat)

include length

theorem length_patch_count : (patch data 488 (le32 count)).length = sectorSize := by
  rw [length_patch (by rw [length, length_le32]; decide), length]

theorem length_stamp : (stamp count hint data).length = sectorSize := by
  have inner := length_patch_count length count
  rw [stamp, length_patch (by rw [inner, length_le32]; decide), inner]

theorem u32le_stamp : u32le (stamp count hint data) 488 = count % 4294967296 := by
  rw [← u32le_patch_le32 (by rw [length]; decide : 488 + 4 ≤ data.length) count]
  exact u32le_congr fun offset below => getElem?_patch_of_lt
    (by rw [length_patch_count length, length_le32]; decide) (by omega)

end Stamp

theorem syncHints_meets (ready : Ready start limit store)
    (small : store.volume.freeCount < 4294967296) :
    syncHints.Meets store (fun _ after => Noted start store after ∧ ∀ lba ∈ after.volume.infoLbas,
        signed (after.disk.sector lba).val = true →
          u32le (after.disk.sector lba).val 488 = after.volume.freeCount)
      (fun _ after => Stopped start (fun _ => False) store after) := by
  refine .gets ?_
  refine .bind (forEach_restamp_meets ready fun data length =>
    length_stamp length store.volume.freeCount store.volume.hint) fun _ after stamped => ?_
  · have volume := stamped.volume
    refine .of_ok (Program.run_modify ..) ⟨⟨⟨stamped.only.layout, stamped.only.fat,
      stamped.only.capacity, stamped.only.faults, stamped.only.boot, stamped.only.behind⟩,
      ?_, ?_, ?_⟩, ?_⟩
    · rw [volume]
      exact ready.working
    · rw [volume]
    · rw [volume]
    · intro lba member signature
      simp only [volume] at member signature ⊢
      obtain ⟨_, length, bytes⟩ :=
        (stamped.done lba member).resolve_left not_mem_nil signature
      rw [bytes]
      exact (u32le_stamp length ..).trans (Nat.mod_eq_of_lt small)

end Hints

/-! ### Linking clusters -/

/-- A view with several links changed. -/
def View.linkAll (view : View) (links : List (Nat × Nat)) : View :=
  { view with entry := updateAll view.entry links }

theorem View.AgreesOff.linkAll (view : View) (links : List (Nat × Nat)) :
    AgreesOff (· ∈ links.map Prod.fst) view (view.linkAll links) :=
  ⟨fun _ away => updateAll_of_notMem away, fun _ _ => rfl, rfl⟩

theorem Moved.refl (ready : Ready start limit store) :
    Moved start limit store store := ⟨ready, Kept.refl .., Quiet.refl ..⟩

theorem Moved.trans {first second third : Store} (left : Moved start limit first second)
    (right : Moved start limit second third) : Moved start limit first third :=
  ⟨right.ready, left.kept.trans right.kept, left.quiet.trans right.quiet (by rw [left.kept.layout])⟩

/-- Changing several clusters one after another. -/
theorem forEach_moves {β : Type} {start limit : Nat} {store : Store}
    {action : Nat × β → Driver Unit} {change : View → Nat × β → View} (fits : Layout → β → Prop)
    (changes : View → List (Nat × β) → View) (nil : ∀ view, changes view [] = view)
    (cons : ∀ view item rest, changes view (item :: rest) = changes (change view item) rest)
    (agrees : ∀ view item, View.AgreesOff (· = item.1) view (change view item))
    (acts : ∀ {store : Store} {item}, Ready start limit store → store.volume.valid item.1 = true →
      fits store.volume.toLayout item.2 → (action item).Meets store
        (fun _ after => Moved start limit store after ∧ after.view = change store.view item)
        (fun _ after => Stopped start (· = item.1) store after))
    (ready : Ready start limit store) {items : List (Nat × β)}
    (valid : ∀ item ∈ items, store.volume.valid item.1 = true)
    (small : ∀ item ∈ items, fits store.volume.toLayout item.2) :
    (Program.forEach items action).Meets store
      (fun _ after => Moved start limit store after ∧ after.view = changes store.view items)
      (fun _ after => Stopped start (· ∈ items.map Prod.fst) store after) := by
  induction items generalizing store with
  | nil => exact ⟨Moved.refl ready, (nil _).symm⟩
  | cons item rest ih =>
    have first := acts ready (valid item mem_cons_self) (small item mem_cons_self)
    refine .bind (first.loosen fun _ after stopped =>
      stopped.mono fun cluster here => ?_) fun _ middle ⟨moved, view⟩ => ?_
    · rw [here]
      exact mem_cons_self
    · have layout := moved.kept.layout
      refine (ih moved.ready
        (fun other later => by rw [layout]; exact valid other (mem_cons_of_mem _ later))
        (fun other later => by
          rw [layout]; exact small other (mem_cons_of_mem _ later))).mono ?_ ?_
      · rintro _ after ⟨next, final⟩
        exact ⟨moved.trans next, by rw [final, view, cons]⟩
      · intro _ after stopped
        refine (stopped.mono fun cluster later => mem_cons_of_mem _ later).after moved.kept ?_
        rw [view]
        exact (agrees store.view item).mono fun cluster here => here ▸ mem_cons_self

/-! ### Taking clusters -/

namespace Volume

variable {volume : Volume}

/-- The cluster at a distance from the hint. -/
def candidate (volume : Volume) (offset : Nat) : Nat :=
  2 + (volume.hint - 2 + offset) % volume.clusters

theorem valid_candidate (some_ : 0 < volume.clusters) (offset : Nat) :
    volume.valid (volume.candidate offset) = true := by
  have small := Nat.mod_lt (volume.hint - 2 + offset) some_
  rw [Layout.valid_iff, candidate]
  omega

theorem candidate_injective {second : Nat} (firstBelow : first < volume.clusters)
    (secondBelow : second < volume.clusters)
    (same : volume.candidate first = volume.candidate second) : first = second := by
  have equal : (volume.hint - 2 + first) % volume.clusters =
      (volume.hint - 2 + second) % volume.clusters := Nat.add_left_cancel same
  have modEq : first ≡ second [MOD volume.clusters] := Nat.ModEq.add_left_cancel' _ equal
  rwa [Nat.ModEq, Nat.mod_eq_of_lt firstBelow, Nat.mod_eq_of_lt secondBelow] at modEq

/-- The search returns free clusters, each at one of the offsets. -/
theorem select_spec (loaded : volume.Loaded) (some_ : 0 < volume.clusters) (count : Nat)
    (offsets selected : List Nat) :
    ∃ found, volume.select count offsets selected = .ok (selected ++ found) ∧
      found.Sublist (offsets.map volume.candidate) ∧
      ∀ cluster ∈ found, volume.kind.entry volume.fat cluster = 0 := by
  induction offsets generalizing selected with
  | nil => exact ⟨[], by rw [select, append_nil], List.Sublist.refl _, nofun⟩
  | cons offset rest ih =>
    have get := get_of_valid loaded (valid_candidate some_ offset)
    have unfolded : volume.select count (offset :: rest) selected =
        if volume.kind.entry volume.fat (volume.candidate offset) = 0 then
          if (selected ++ [volume.candidate offset]).length = count then
            .ok (selected ++ [volume.candidate offset])
          else volume.select count rest (selected ++ [volume.candidate offset])
        else volume.select count rest selected := by
      rw [select]
      show (volume.get (volume.candidate offset) >>= _) = _
      rw [get]
      rfl
    rw [unfolded]
    by_cases free : volume.kind.entry volume.fat (volume.candidate offset) = 0
    · rw [if_pos free]
      by_cases enough : (selected ++ [volume.candidate offset]).length = count
      · rw [if_pos enough]
        refine ⟨[volume.candidate offset], rfl, ?_, ?_⟩
        · exact List.Sublist.cons_cons _ (nil_sublist _)
        · intro cluster member
          rw [mem_singleton.mp member]
          exact free
      · rw [if_neg enough]
        obtain ⟨found, run, sublist, all⟩ :=
          ih (selected ++ [volume.candidate offset])
        refine ⟨volume.candidate offset :: found, by rw [run, append_assoc]; rfl,
          sublist.cons_cons _, fun cluster member => ?_⟩
        rcases mem_cons.mp member with rfl | later
        · exact free
        · exact all cluster later
    · rw [if_neg free]
      obtain ⟨found, run, sublist, all⟩ := ih selected
      exact ⟨found, run, sublist.cons _, all⟩

/-- The search returns different free clusters. -/
theorem select_all (loaded : volume.Loaded) (some_ : 0 < volume.clusters) (count : Nat) :
    ∃ selected, volume.select count (List.range volume.clusters) [] = .ok selected ∧
      selected.Nodup ∧ (∀ cluster ∈ selected, volume.valid cluster = true) ∧
      ∀ cluster ∈ selected, volume.kind.entry volume.fat cluster = 0 := by
  obtain ⟨selected, run, sublist, free⟩ :=
    select_spec loaded some_ count (List.range volume.clusters) []
  refine ⟨selected, run, sublist.nodup (List.Nodup.map_on ?_ nodup_range), ?_, free⟩
  · intro first below second belowToo same
    exact candidate_injective (mem_range.mp below) (mem_range.mp belowToo) same
  · intro cluster member
    obtain ⟨offset, _, rfl⟩ := mem_map.mp (sublist.subset member)
    exact valid_candidate some_ offset

end Volume

/-- The entries written for a list of clusters link it into a chain. -/
theorem Layout.linked_links (placed : layout.Placed start limit) {entry : Nat → Nat}
    (valid : ∀ cluster ∈ first :: rest, layout.valid cluster = true)
    (written : ∀ link ∈ links layout (first :: rest), entry link.1 = link.2) :
    Linked (layout.link entry) first (first :: rest) := by
  induction rest generalizing first with
  | nil =>
    have last : entry first = layout.eof := written (first, layout.eof) (mem_singleton_self _)
    refine .last ?_
    rw [link_of_valid (valid first (mem_singleton_self _)), last, if_pos (Placed.isEof_eof _)]
  | cons second others ih =>
    have next : entry first = second := written (first, second) mem_cons_self
    have secondValid := valid second (by simp)
    have follows : layout.link entry first = .next second := by
      rw [link_of_valid (valid first mem_cons_self), next, placed.valid_not_eof secondValid]
      rfl
    exact .next follows (ih (forall_mem_cons.mp valid).2 (forall_mem_cons.mp written).2)

theorem fst_links (layout : Layout) (clusters : List Nat) :
    (links layout clusters).map Prod.fst = clusters := by
  rw [links, map_fst_zip]
  cases clusters <;> simp

theorem snd_links_lt (placed : layout.Placed start limit) {clusters : List Nat}
    (valid : ∀ cluster ∈ clusters, layout.valid cluster = true) {link : Nat × Nat}
    (member : link ∈ links layout clusters) : link.2 < layout.kind.modulus := by
  have second := (of_mem_zip member).2
  rcases mem_append.mp second with later | last
  · exact placed.valid_lt_modulus (valid _ (mem_of_mem_tail later))
  · rw [mem_singleton.mp last]
    exact Layout.Placed.eof_lt_modulus layout

/-- Some free clusters were linked into a chain. -/
structure Taken (layout : Layout) (before after : View) (chain : List Nat) : Prop where
  agrees : before.AgreesOff (· ∈ chain) after
  linked : layout.ChainOf after.entry (chain.head?.getD 0) chain
  free : ∀ cluster ∈ chain, before.entry cluster = 0

theorem Taken.nil (layout : Layout) (view : View) : Taken layout view view [] :=
  ⟨View.AgreesOff.refl .., Layout.ChainOf.nil .., nofun⟩

section Allocate

/-- The links written for free clusters make them a chain. -/
theorem taken_linkAll (placed : layout.Placed start limit) {view : View} {selected : List Nat}
    (distinct : selected.Nodup) (valid : ∀ cluster ∈ selected, layout.valid cluster = true)
    (free : ∀ cluster ∈ selected, view.entry cluster = 0) :
    Taken layout view (view.linkAll (links layout selected)) selected := by
  have keys := fst_links layout selected
  refine ⟨?_, ?_, free⟩
  · have agrees := View.AgreesOff.linkAll view (links layout selected)
    rw [keys] at agrees
    exact agrees
  · cases selected with
    | nil => exact Layout.ChainOf.nil ..
    | cons first rest =>
      refine Or.inr (Layout.linked_links placed valid fun link member => ?_)
      exact updateAll_of_mem (by rw [keys]; exact distinct) member

theorem Taken.freeIn {before after : View} {chain : List Nat}
    (taken : Taken layout before after chain) :
    layout.freeIn after.entry + chain.length = layout.freeIn before.entry :=
  Layout.freeIn_take taken.linked.nodup (fun _ member => taken.linked.valid member) taken.free
    (fun _ member => taken.linked.entry_ne_zero member) taken.agrees.entry

/-- A volume whose ledger was changed in memory. -/
def Store.recount (store : Store) (hint freeCount : Nat) : Store :=
  { store with volume := { store.volume with hint := hint, freeCount := freeCount } }

theorem Ready.recount (ready : Ready start limit store) (hint freeCount : Nat) :
    Ready start limit (store.recount hint freeCount) :=
  ⟨ready.placed, ready.inside, ready.synced, ready.working⟩

theorem Kept.recount (start : Nat) (store : Store) (hint freeCount : Nat) :
    Kept start store (store.recount hint freeCount) := ⟨rfl, rfl, rfl, rfl⟩

/-- Storing a ledger that is right makes a working volume a mounted one. -/
theorem syncHints_mounts (ready : Ready start limit store)
    (count : store.volume.freeCount = store.volume.freeIn store.view.entry)
    (hint_ge : 2 ≤ store.volume.hint) (hint_lt : store.volume.hint < store.volume.clusters + 2) :
    syncHints.Meets store
      (fun _ after => Mounted start limit after ∧ Kept start store after ∧ after.view = store.view)
      (fun _ after => Stopped start (fun _ => False) store after) := by
  have small : store.volume.freeCount < 4294967296 := by
    have bound := store.volume.freeIn_le store.view.entry
    have clusters := ready.placed.cluster_count
    omega
  refine (syncHints_meets ready small).imp ?_
  rintro _ _ ⟨noted, info⟩
  have view := noted.only.view ready.placed
  have layout := noted.only.layout
  refine ⟨⟨noted.ready ready, ?_, ?_, ?_, fun lba member _ => info lba member⟩,
    noted.only.kept, view⟩
  · rw [noted.freeCount, layout, view, count]
  · rw [noted.hint]
    exact hint_ge
  · rw [noted.hint, layout]
    exact hint_lt

/-- Taking clusters makes a chain of free clusters, or fails without any change, or is stopped
by the device and has touched free clusters only. -/
theorem allocate_meets (mounted : Mounted start limit store) (count : Nat) :
    (allocate count).Meets store
      (fun chain after => Mounted start limit after ∧ Kept start store after ∧
        chain.length = count ∧ Taken store.volume.toLayout store.view after.view chain)
      (fun reason after => reason = .diskFull ∧ after = store ∨
        Stopped start (fun cluster => store.view.entry cluster = 0) store after) := by
  have ready := mounted.toReady
  refine .step (check_of_working ready.working) ?_
  refine .ite (fun none => .pure ⟨mounted, Kept.refl .., none.symm, Taken.nil ..⟩) fun none => ?_
  have bounds := mounted.hint_ge
  obtain ⟨selected, run, distinct, valid, free⟩ :=
    Volume.select_all ready.loaded ready.placed.some_clusters count
  refine .gets ?_
  rw [if_neg (by omega)]
  refine .step (Prod.ext run rfl) ?_
  by_cases short : selected.length = count
  swap
  · rw [if_pos short]
    exact .fail (Or.inl ⟨rfl, rfl⟩)
  rw [if_neg (by omega)]
  have taken := taken_linkAll ready.placed distinct valid
    (show ∀ cluster ∈ selected, store.view.entry cluster = 0 from free)
  have freeIn := taken.freeIn
  refine .bind ((invalidateHints_meets ready).loosen fun _ _ stopped =>
    Or.inr (stopped.mono fun _ impossible => impossible.elim)) fun _ first noted => ?_
  have layout := noted.only.layout
  have view := noted.only.view ready.placed
  have keys := fst_links store.volume.toLayout selected
  have freed : ∀ cluster ∈ (links store.volume.toLayout selected).map Prod.fst,
      store.view.entry cluster = 0 := fun cluster member => free cluster (keys ▸ member)
  refine .bind ((forEach_moves (fun layout value => value < layout.kind.modulus) View.linkAll
    (fun _ => rfl) (fun _ _ _ => rfl) (fun _ _ => View.AgreesOff.link ..) set_meets
    (noted.ready ready) ?_ ?_).loosen fun _ _ stopped => Or.inr ?_)
    fun _ second ⟨moved, linked⟩ => ?_
  · intro _ member
    rw [layout]
    exact valid _ (keys ▸ mem_map_of_mem member)
  · intro _ member
    rw [layout]
    exact snd_links_lt ready.placed valid member
  · refine (stopped.mono freed).after noted.only.kept ?_
    rw [view]
    exact View.AgreesOff.refl ..
  have last : selected ≠ [] := by
    rintro rfl
    exact none short.symm
  rw [getLast?_eq_some_getLast last]
  refine .expect rfl ?_
  have ledger := mounted.count
  rw [if_neg (by omega)]
  refine .of_eq (Program.modify_bind_run ..) ?_
  have same : second.volume.toLayout = store.volume.toLayout := moved.kept.layout.trans layout
  have final : second.view = store.view.linkAll (links store.volume.toLayout selected) := by
    rw [linked, view]
  have kept := (noted.only.kept.trans moved.kept).trans (Kept.recount start second
    (2 + (selected.getLast last - 1) % store.volume.clusters)
    (store.volume.freeCount - selected.length))
  refine .bind ((syncHints_mounts (moved.ready.recount _ _) ?_ ?_ ?_).loosen
    fun _ _ stopped => Or.inr ?_) fun _ third ⟨done, keptLast, viewLast⟩ => ?_
  · show store.volume.freeCount - selected.length = second.volume.freeIn second.view.entry
    rw [same, final]
    omega
  · exact Nat.le_add_right ..
  · have small := Nat.mod_lt (selected.getLast last - 1) ready.placed.some_clusters
    show 2 + (selected.getLast last - 1) % store.volume.clusters < second.volume.clusters + 2
    rw [same]
    omega
  · refine (stopped.mono fun _ impossible => impossible.elim).after kept ?_
    show store.view.AgreesOff _ second.view
    rw [final]
    exact taken.agrees.mono free
  · refine .pure ⟨done, kept.trans keptLast, short, ?_⟩
    have end_ : third.view = second.view := viewLast
    rw [end_, final]
    exact taken

end Allocate

/-! ### Releasing clusters -/

/-- The clusters of a chain were made free. -/
structure Released (before after : View) (chain : List Nat) : Prop where
  agrees : before.AgreesOff (· ∈ chain) after
  data : after.data = before.data
  free : ∀ cluster ∈ chain, after.entry cluster = 0

/-- The links that release clusters. -/
def unlinks (clusters : List Nat) : List (Nat × Nat) := clusters.map fun cluster => (cluster, 0)

theorem fst_unlinks (clusters : List Nat) : (unlinks clusters).map Prod.fst = clusters := by
  rw [unlinks, map_map]
  exact map_id' clusters

theorem released_unlinks (view : View) {chain : List Nat} (distinct : chain.Nodup) :
    Released view (view.linkAll (unlinks chain)) chain := by
  have keys := fst_unlinks chain
  refine ⟨?_, rfl, fun cluster member => ?_⟩
  · have agrees := View.AgreesOff.linkAll view (unlinks chain)
    rw [keys] at agrees
    exact agrees
  · have written : (cluster, 0) ∈ unlinks chain :=
      mem_map_of_mem (f := fun cluster => (cluster, 0)) member
    exact updateAll_of_mem (by rw [keys]; exact distinct) written

section Free

variable {chain : List Nat}

/-- Some clusters of a chain are released, the others are still to come. -/
structure Releasing (start limit : Nat) (store : Store) (chain rest : List Nat)
    (after : Store) : Prop where
  ready : Ready start limit after
  kept : Kept start store after
  hint_ge : 2 ≤ after.volume.hint
  hint_lt : after.volume.hint < after.volume.clusters + 2
  progress : ∃ done, chain = done ++ rest ∧ after.view = store.view.linkAll (unlinks done) ∧
    after.volume.freeCount = store.volume.freeCount + done.length

theorem Releasing.agrees (releasing : Releasing start limit store chain rest after) :
    store.view.AgreesOff (· ∈ chain) after.view := by
  obtain ⟨_, rfl, view, _⟩ := releasing.progress
  rw [view]
  refine (View.AgreesOff.linkAll ..).mono fun cluster member => ?_
  rw [fst_unlinks] at member
  exact mem_append_left _ member

theorem release_meets (valid : ∀ cluster ∈ chain, store.volume.valid cluster = true)
    (releasing : Releasing start limit store chain (cluster :: rest) before) :
    (do set cluster 0
        .modify fun store => { store with
          volume := { store.volume with
            hint := min store.volume.hint cluster
            freeCount := store.volume.freeCount + 1 } } : Driver Unit).Meets before
      (fun _ after => Releasing start limit store chain rest after)
      (fun _ after => Stopped start (· ∈ chain) store after) := by
  obtain ⟨done, split, view, count⟩ := releasing.progress
  have member : cluster ∈ chain := by
    rw [split]
    exact mem_append_right _ mem_cons_self
  have layout := releasing.kept.layout
  have clusterValid := valid cluster member
  have positive : 0 < before.volume.kind.modulus := by cases before.volume.kind <;> decide
  have bounds := Layout.valid_iff.mp clusterValid
  have hint_ge := releasing.hint_ge
  refine .bind ((set_meets releasing.ready (by rw [layout]; exact clusterValid) positive).loosen
    fun _ _ stopped => ?_) fun _ after ⟨moved, linked⟩ => ?_
  · refine (stopped.mono fun other here => ?_).after releasing.kept releasing.agrees
    rw [here]
    exact member
  · have hint := moved.quiet.hint
    have kept := releasing.kept.trans moved.kept
    have same : after.volume.clusters = store.volume.clusters := by rw [kept.layout]
    refine .of_ok (Program.run_modify ..) ⟨moved.ready.recount _ _, kept.trans (Kept.recount ..),
      ?_, ?_, done ++ [cluster], by rw [split, append_assoc]; rfl, ?_, ?_⟩
    · show 2 ≤ min after.volume.hint cluster
      omega
    · show min after.volume.hint cluster < after.volume.clusters + 2
      omega
    · show after.view = _
      rw [linked, view, unlinks, unlinks, map_append, View.linkAll, View.linkAll, updateAll_append]
      rfl
    · rw [moved.quiet.freeCount, count, length_append]
      rfl

/-- Releasing a chain makes its clusters free; the device can stop it only among them. -/
theorem free_meets (mounted : Mounted start limit store)
    (linked : store.volume.ChainOf store.view.entry first chain)
    (short : chain.length ≤ maxFile / store.volume.bytes + 1) :
    (free first).Meets store (fun _ after => Mounted start limit after ∧ Kept start store after ∧
        Released store.view after.view chain)
      (fun _ after => Stopped start (· ∈ chain) store after) := by
  have ready := mounted.toReady
  have found := ready.chain_eq_ok_iff.mpr ⟨linked, short⟩
  refine .step (Prod.ext found rfl) ?_
  refine .bind ((invalidateHints_meets ready).loosen fun _ _ stopped =>
    stopped.mono fun _ impossible => impossible.elim) fun _ first noted => ?_
  have layout := noted.only.layout
  refine .bind (.forEach (Releasing start limit store chain) ?_ fun cluster rest before releasing =>
      release_meets (fun cluster member => linked.valid member) releasing)
      fun _ second releasing => ?_
  · refine ⟨noted.ready ready, noted.only.kept, ?_, ?_, [], rfl, noted.only.view ready.placed, ?_⟩
    · rw [noted.hint]
      exact mounted.hint_ge
    · rw [noted.hint, layout]
      exact mounted.hint_lt
    · rw [noted.freeCount]
      rfl
  · obtain ⟨done, split, view, count⟩ := releasing.progress
    rw [append_nil] at split
    subst split
    have released := released_unlinks store.view linked.nodup
    have taken := Layout.freeIn_take linked.nodup (fun _ member => linked.valid member)
      released.free (fun _ member => linked.entry_ne_zero member)
      fun cluster away => (released.agrees.entry cluster away).symm
    refine (syncHints_mounts releasing.ready ?_ releasing.hint_ge releasing.hint_lt).mono ?_ ?_
    · rw [count, releasing.kept.layout, view, mounted.count]
      exact taken
    · rintro _ after ⟨done, kept, final⟩
      rw [final, view]
      exact ⟨done, releasing.kept.trans kept, released⟩
    · intro _ after stopped
      exact (stopped.mono fun _ impossible => impossible.elim).after releasing.kept releasing.agrees

end Free

/-! ### Writing data into new clusters -/

/-- A view with the contents of several clusters changed. -/
def View.storeAll (view : View) (pieces : List (Nat × List UInt8)) : View :=
  { view with data := updateAll view.data pieces }

theorem View.AgreesOff.storeAll (view : View) (pieces : List (Nat × List UInt8)) :
    AgreesOff (· ∈ pieces.map Prod.fst) view (view.storeAll pieces) :=
  ⟨fun _ _ => rfl, fun _ away => updateAll_of_notMem away, rfl⟩

section Write

/-- The part of some data that goes into a cluster, filled up with zeros. -/
def Layout.piece (layout : Layout) (data : List UInt8) (index : Nat) : List UInt8 :=
  let part := slice data (index * layout.bytes) layout.bytes
  part ++ List.replicate (layout.bytes - part.length) 0

theorem Layout.length_piece (layout : Layout) (data : List UInt8) (index : Nat) :
    (layout.piece data index).length = layout.bytes := by
  have bound := length_slice_le data (index * layout.bytes) layout.bytes
  rw [piece, length_append, length_replicate]
  omega

/-- The number of clusters that hold some data. -/
def Layout.needed (layout : Layout) (size : Nat) : Nat := (size + layout.bytes - 1) / layout.bytes

/-- The pieces of some data, one after another, are the data and zeros. -/
theorem Layout.flatMap_piece (layout : Layout) (data : List UInt8) (count : Nat) :
    (List.range count).flatMap (layout.piece data) = data.take (count * layout.bytes) ++
        List.replicate (count * layout.bytes - data.length) 0 := by
  induction count with
  | zero => simp
  | succ count ih =>
    have part : (slice data (count * layout.bytes) layout.bytes).length =
        min layout.bytes (data.length - count * layout.bytes) := by
      rw [slice, length_take, length_drop]
    rw [range_succ, flatMap_append, ih, flatMap_singleton, piece, Nat.succ_mul, part]
    by_cases inside : count * layout.bytes ≤ data.length
    · have fill : layout.bytes - min layout.bytes (data.length - count * layout.bytes) =
          count * layout.bytes + layout.bytes - data.length := by omega
      rw [Nat.sub_eq_zero_of_le inside, fill, take_add, replicate_zero, append_nil, ← append_assoc]
      rfl
    · have empty : slice data (count * layout.bytes) layout.bytes = [] := by
        rw [slice, drop_of_length_le (by omega), take_nil]
      have fill : layout.bytes - min layout.bytes (data.length - count * layout.bytes) =
          layout.bytes := by omega
      have total : count * layout.bytes - data.length + layout.bytes =
          count * layout.bytes + layout.bytes - data.length := by omega
      rw [empty, fill, nil_append, append_assoc, ← replicate_add, total,
        take_of_length_le (by omega), take_of_length_le (by omega)]

/-- The pieces of some data with the clusters they go to. -/
def Layout.pieces (layout : Layout) (data : List UInt8) (chain : List Nat) :
    List (Nat × List UInt8) :=
  chain.zipIdx.map fun item => (item.1, layout.piece data item.2)

theorem Layout.fst_pieces (layout : Layout) (data : List UInt8) (chain : List Nat) :
    (layout.pieces data chain).map Prod.fst = chain := by
  rw [pieces, map_map]
  exact zipIdx_map_fst ..

/-- The contents of distinct clusters after the pieces are put into them. -/
theorem Layout.map_pieces {view : View} {data : List UInt8} {chain : List Nat}
    (distinct : chain.Nodup) :
    chain.map (view.storeAll (layout.pieces data chain)).data =
      (List.range chain.length).map (layout.piece data) := by
  refine ext_getElem? fun index => ?_
  rw [getElem?_map, getElem?_map]
  by_cases inside : index < chain.length
  · have found : chain[index]? = some chain[index] := List.getElem?_eq_getElem inside
    have member : (chain[index], layout.piece data index) ∈ layout.pieces data chain :=
      mem_map_of_mem (f := fun item : Nat × Nat => (item.1, layout.piece data item.2))
        (mem_zipIdx_iff_getElem?.mpr found : (chain[index], index) ∈ chain.zipIdx)
    rw [found, getElem?_range inside, Option.map_some, Option.map_some]
    exact congrArg some (updateAll_of_mem (by rw [fst_pieces]; exact distinct) member)
  · rw [List.getElem?_eq_none (by omega), List.getElem?_eq_none (by rw [length_range]; omega)]
    rfl

theorem Layout.le_needed_mul (some_ : 0 < layout.bytes) (size : Nat) :
    size ≤ layout.needed size * layout.bytes := by
  have quotient := Nat.div_add_mod (size + layout.bytes - 1) layout.bytes
  have small := Nat.mod_lt (size + layout.bytes - 1) some_
  rw [needed, Nat.mul_comm]
  omega

/-- The clusters that hold some data start among its bytes. -/
theorem Layout.mul_le_of_lt_needed (some_ : 0 < layout.bytes) {size index : Nat}
    (below : index < layout.needed size) : index * layout.bytes ≤ size := by
  have quotient := (Nat.le_div_iff_mul_le some_).mp (show index + 1 ≤ layout.needed size from below)
  rw [Nat.succ_mul] at quotient
  omega

/-- The clusters of a chain hold some data. -/
def View.Holds (view : View) (chain : List Nat) (data : List UInt8) : Prop :=
  (chain.flatMap view.data).take data.length = data

/-- Writing data fills a chain of free clusters with it, or fails without any change, or is
stopped by the device and has touched free clusters only. -/
theorem writeData_meets (mounted : Mounted start limit store) (data : List UInt8) :
    (writeData data).Meets store
      (fun first after => Mounted start limit after ∧ Kept start store after ∧
        data.length ≤ maxFile ∧ ∃ chain, Taken store.volume.toLayout store.view after.view chain ∧
          first = chain.head?.getD 0 ∧ chain.length = store.volume.needed data.length ∧
          after.view.Holds chain data)
      (fun reason after => (reason = .diskFull ∨ reason = .fileTooLarge) ∧ after = store ∨
        Stopped start (fun cluster => store.view.entry cluster = 0) store after) := by
  have some_ := mounted.placed.bytes_pos
  by_cases large : data.length > maxFile
  · rw [writeData, if_pos large]
    exact .fail (Or.inl ⟨Or.inr rfl, rfl⟩)
  rw [writeData, if_neg large]
  refine .gets ?_
  refine .bind ((allocate_meets mounted _).loosen fun _ _ failed =>
    failed.imp_left fun full => ⟨Or.inl full.1, full.2⟩)
    fun chain middle ⟨mountedMiddle, kept, length, taken⟩ => ?_
  have layout := kept.layout
  have count : chain.length = store.volume.needed data.length := length
  have body : Program.forEach chain.zipIdx (fun item : Nat × Nat => do
      .require (item.2 * store.volume.bytes ≤ data.length)
      writeCluster item.1 (store.volume.piece data item.2)) =
      Program.forEach (store.volume.pieces data chain) fun piece =>
        writeCluster piece.1 piece.2 := by
    rw [Layout.pieces, Program.forEach_map]
    refine Program.forEach_congr fun item member => Program.require_bind ?_ _
    exact Layout.mul_le_of_lt_needed some_ (count ▸ snd_lt_of_mem_zipIdx member)
  have keys := store.volume.fst_pieces data chain
  refine .of_eq (congrFun (congrArg (fun loop => (loop >>= fun _ => _)) body) middle) ?_
  refine .bind ((forEach_moves (fun layout data => data.length = layout.bytes) View.storeAll
    (fun _ => rfl) (fun _ _ _ => rfl) (fun _ _ => View.AgreesOff.store ..) writeCluster_meets
    mountedMiddle.toReady ?_ ?_).loosen fun _ _ stopped => Or.inr ?_)
    fun _ after ⟨moved, view⟩ => ?_
  · intro _ member
    rw [layout]
    exact taken.linked.valid (keys ▸ mem_map_of_mem member)
  · intro _ member
    obtain ⟨_, _, rfl⟩ := mem_map.mp member
    rw [layout]
    exact Layout.length_piece ..
  · rw [keys] at stopped
    exact (stopped.mono taken.free).after kept (taken.agrees.mono taken.free)
  · have agrees := View.AgreesOff.storeAll middle.view (store.volume.pieces data chain)
    rw [keys, ← view] at agrees
    have entry : after.view.entry = middle.view.entry := by rw [view]; rfl
    refine .pure ⟨mountedMiddle.moved moved (by rw [entry]),
      kept.trans moved.kept, Nat.le_of_not_lt large, chain,
      ⟨taken.agrees.trans agrees, by rw [entry]; exact taken.linked, taken.free⟩, rfl, count, ?_⟩
    rw [View.Holds, flatMap_def, view, Layout.map_pieces taken.linked.nodup, ← flatMap_def,
      Layout.flatMap_piece, count, take_append_of_le_length, take_take, take_of_length_le]
    · have room := Layout.le_needed_mul some_ data.length
      omega
    · have room := Layout.le_needed_mul some_ data.length
      rw [length_take]
      omega

end Write

end Mmurtl.Fat

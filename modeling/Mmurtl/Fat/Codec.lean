/-
This file proves that the table of a mounted volume is read, changed and followed exactly,
whatever its entries are: a changed entry reads back, no other entry and no reserved bit
changes, all copies that are kept are alike, and a walk returns the chain there is or fails.
-/

import Mmurtl.Fat.Robust

namespace Mmurtl.Fat

open Bytes List

variable {cluster : Nat} {store : Store}

variable {disk : Disk} {start length : Nat} {volume : Volume}

/-- A state of a mounted volume: the geometry is that of the boot sector and the table has its
size, while its entries are arbitrary. -/
structure Volume.StateOf (state volume : Volume) : Prop where
  layout : state.toLayout = volume.toLayout
  table : state.fat.length = volume.fat.length

theorem Volume.StateOf.refl (volume : Volume) : volume.StateOf volume := ⟨rfl, rfl⟩

/-- What mounting says about the geometry and the table. -/
theorem probe_placed (probed : probe disk start length = .ok volume) :
    volume.Placed start (start + length) ∧ volume.fat.length = volume.fatSectors * sectorSize := by
  rw [probe] at probed
  simp only [Outcome.bind_eq_ok, Outcome.pure_eq, Outcome.ok.injEq] at probed
  obtain ⟨_, _, _, found, _, read, _, _, rfl⟩ := probed
  refine ⟨layoutOf_placed found, ?_⟩
  have size := (Store.readAll_safe _ _ _).of_ok read
  rw [Layout.length_fatLbas, Nat.mul_comm] at size
  exact size

section State

variable {state : Volume}

section

variable (same : state.StateOf volume) (probed : probe disk start length = .ok volume)
include same probed

theorem Volume.StateOf.placed : state.Placed start (start + length) := by
  rw [same.layout]
  exact (probe_placed probed).1

theorem Volume.StateOf.length_fat : state.fat.length = state.fatSectors * sectorSize := by
  rw [same.table, same.layout]
  exact (probe_placed probed).2

theorem Volume.StateOf.loaded : state.Loaded := by
  intro _ valid
  rw [same.length_fat probed]
  exact (same.placed probed).entry_fits valid

end

end State

/-! ### Entries -/

/-- The driver keeps a copy of the table: all of them, or the active one. -/
def Layout.Maintains (layout : Layout) (copy : Nat) : Prop :=
  copy < layout.fats ∧ (layout.mirrored = true ∨ copy = layout.active)

/-- All copies of the table that the driver keeps hold what is cached. -/
def Store.CopiesAgree (store : Store) : Prop :=
  ∀ copy, store.volume.Maintains copy →
    store.disk.contents (store.volume.fatLbas copy) = store.volume.fat

/-- All bytes of the table that are accessed for an entry are there: those of the entry, and those
of the sectors that are written. -/
def Volume.Within (volume : Volume) (cluster : Nat) : Prop :=
  volume.kind.entryOffset cluster + volume.kind.entrySize ≤ volume.fat.length ∧
    ∀ index ∈ volume.kind.entrySectors cluster,
      index * sectorSize + sectorSize ≤ volume.fat.length

variable {limit : Nat}

theorem Volume.within_of_placed (placed : volume.Placed start limit)
    (table : volume.fat.length = volume.fatSectors * sectorSize)
    (valid : volume.valid cluster = true) : volume.Within cluster := by
  rw [Volume.Within, table]
  refine ⟨placed.entry_fits valid, fun index member => ?_⟩
  have flushed : (volume.active, index) ∈ volume.flushed cluster :=
    Layout.mem_flushed.mpr ⟨placed.active, Or.inr rfl, member⟩
  rw [← Nat.succ_mul]
  exact Nat.mul_le_mul_right _ (placed.flushed_lt valid flushed)

/-- An entry that is set reads back cut to its width. No other entry and no reserved bit changes,
all accesses are inside the table, and the copies of the table stay alike. -/
theorem set_exact (probed : probe disk start length = .ok volume) {store after : Store}
    (state : store.volume.StateOf volume) {cluster other value : Nat}
    (valid : volume.valid cluster = true) (otherValid : volume.valid other = true)
    (different : other ≠ cluster) (done : set cluster value store = (.ok (), after)) :
    after.volume.get cluster = .ok (value % volume.kind.modulus) ∧
    after.volume.get other = store.volume.get other ∧
    (volume.kind = .fat32 → ∀ entry, u32le after.volume.fat (entry * 4) / 2 ^ 28 =
      u32le store.volume.fat (entry * 4) / 2 ^ 28) ∧
    store.volume.Within cluster ∧ after.volume.Within cluster ∧ after.volume.Within other ∧
    (store.CopiesAgree → after.CopiesAgree) := by
  have placed := state.placed probed
  have table := state.length_fat probed
  have loaded := state.loaded probed
  rw [← state.layout] at valid otherValid ⊢
  have working : store.volume.failed = false := by
    by_contra failed
    have stopped : check store = (.error .stopped, store) := by
      rw [check, Program.reads, Volume.check, if_pos (by simpa using failed)]
    rw [set, Program.bind_of_error stopped] at done
    cases done
  have result := set_writes placed table working valid value
  rw [Program.Meets, done] at result
  subst result
  have fits := loaded cluster valid
  have changed : (store.withEntry cluster value).volume.StateOf volume :=
    ⟨state.layout, (Kind.length_setEntry fits value).trans state.table⟩
  have loadedAfter := changed.loaded probed
  have placedAfter := changed.placed probed
  have tableAfter := changed.length_fat probed
  refine ⟨?_, ?_, ?_, Volume.within_of_placed placed table valid,
    Volume.within_of_placed placedAfter tableAfter valid,
    Volume.within_of_placed placedAfter tableAfter otherValid,
    fun agree copy maintained => Volume.contents_entryWrites placed table valid value maintained.1
      maintained.2 (agree copy maintained)⟩
  · rw [Volume.get_of_valid loadedAfter valid]
    exact congrArg Outcome.ok (Kind.entry_setEntry_self fits value)
  · rw [Volume.get_of_valid loadedAfter otherValid, Volume.get_of_valid loaded otherValid]
    exact congrArg Outcome.ok (Kind.entry_setEntry_of_ne fits value different)
  · intro kind entry
    rw [kind] at fits
    show u32le (store.volume.kind.setEntry store.volume.fat cluster value) (entry * 4) / 2 ^ 28 = _
    rw [kind]
    exact Kind.reserved_setEntry_fat32 fits value entry

/-- An entry of the small volume is set. -/
theorem set_exact_smallDisk :
    (set 2 0x1005 ⟨smallDisk, (smallLayout 1 16).mount smallDisk⟩).2.volume.get 2 = .ok 5 := by
  have done : (set 2 0x1005 ⟨smallDisk, (smallLayout 1 16).mount smallDisk⟩).1 = .ok () := by
    decide +kernel
  exact (set_exact probe_smallDisk (Volume.StateOf.refl _)
    (show (smallLayout 1 16).valid 2 = true by
    decide) (show (smallLayout 1 16).valid 3 = true by decide) (by decide)
    (Program.run_of_fst done)).1

/-! ### Chains -/

/-- The clusters from one on, each the entry of the one before, up to an end-of-chain value. -/
structure Volume.Follows (volume : Volume) (first max : Nat) (list : List Nat) : Prop where
  head : list.head? = some first
  links : list.IsChain fun cluster next => volume.get cluster = .ok next
  last : ∃ cluster value, list.getLast? = some cluster ∧ volume.get cluster = .ok value ∧
    volume.isEof value = true
  valid : ∀ cluster ∈ list, volume.valid cluster = true
  distinct : list.Nodup
  length : list.length ≤ max

section Chains

variable {first : Nat} {list : List Nat}

theorem Volume.links_of_linked (loaded : volume.Loaded)
    (linked : Linked (volume.link (volume.kind.entry volume.fat)) first list) :
    (list.IsChain fun cluster next => volume.get cluster = .ok next) ∧
      ∃ cluster value, list.getLast? = some cluster ∧ volume.get cluster = .ok value ∧
        volume.isEof value = true := by
  induction linked with
  | @last first stop =>
    have valid := Layout.valid_of_linked (.last stop) (mem_singleton_self _)
    refine ⟨isChain_singleton _, first, _, rfl, get_of_valid loaded valid, ?_⟩
    by_contra notEof
    rw [Layout.link_of_valid valid, if_neg notEof] at stop
    cases stop
  | @next first target rest next tail ih =>
    obtain ⟨links, cluster, value, last, found, eof⟩ := ih
    have valid := Layout.valid_of_linked (.next next tail) mem_cons_self
    have here : volume.kind.entry volume.fat first = target := by
      rw [Layout.link_of_valid valid] at next
      split at next
      · cases next
      · cases next
        rfl
    refine ⟨isChain_cons.mpr ⟨fun other second => ?_, links⟩, cluster, value, ?_, found, eof⟩
    · rw [tail.head?, Option.mem_some_iff] at second
      rw [get_of_valid loaded valid, here, second]
    · rw [getLast?_cons, last]
      rfl

theorem Volume.linked_of_links (loaded : volume.Loaded) (placed : volume.Placed start limit)
    (head : list.head? = some first)
    (links : list.IsChain fun cluster next => volume.get cluster = .ok next)
    (last : ∃ cluster value, list.getLast? = some cluster ∧ volume.get cluster = .ok value ∧
      volume.isEof value = true) (valid : ∀ cluster ∈ list, volume.valid cluster = true) :
    Linked (volume.link (volume.kind.entry volume.fat)) first list := by
  induction list generalizing first with
  | nil => cases head
  | cons cluster rest ih =>
    cases head
    have here := valid cluster mem_cons_self
    have link : volume.link (volume.kind.entry volume.fat) cluster = _ := Layout.link_of_valid here
    cases rest with
    | nil =>
      obtain ⟨other, _, same, found, eof⟩ := last
      have same : cluster = other := Option.some.inj same
      rw [← same, get_of_valid loaded here] at found
      cases found
      exact .last (link.trans (if_pos eof))
    | cons second rest =>
      obtain ⟨next, later⟩ := isChain_cons.mp links
      have found := next second rfl
      rw [get_of_valid loaded here] at found
      have others : ∀ other ∈ second :: rest, volume.valid other = true :=
        (forall_mem_cons.mp valid).2
      have open_ := placed.valid_not_eof (others second mem_cons_self)
      rw [Outcome.ok.injEq] at found
      rw [found, open_] at link
      exact .next link (ih rfl later last others)

/-- A walk returns the chain there is, if it is not too long, and fails otherwise. -/
theorem chain_exact (probed : probe disk start length = .ok volume) {state : Volume}
    (same : state.StateOf volume) (first max : Nat) :
    (∀ list, state.chain first max = .ok list ↔
      state.failed = false ∧ (first = 0 ∧ list = [] ∨ state.Follows first max list)) ∧
    ((∃ list, state.chain first max = .ok list) ∨
      ∃ reason, state.chain first max = .error reason) := by
  have loaded := same.loaded probed
  have placed := same.placed probed
  refine ⟨fun list => ⟨fun found => ?_, ?_⟩, ?_⟩
  · have working := Volume.working_of_chain found
    obtain ⟨none | linked, short⟩ := (Volume.chain_eq_ok_iff loaded working).mp found
    · exact ⟨working, Or.inl none⟩
    · obtain ⟨links, last⟩ := Volume.links_of_linked loaded linked
      exact ⟨working, Or.inr ⟨linked.head?, links, last, fun _ => Layout.valid_of_linked linked,
        linked.nodup, short⟩⟩
  · rintro ⟨working, ⟨none, empty⟩ | follows⟩
    · refine (Volume.chain_eq_ok_iff loaded working).mpr ⟨Or.inl ⟨none, empty⟩, ?_⟩
      rw [empty]
      exact Nat.zero_le _
    · exact (Volume.chain_eq_ok_iff loaded working).mpr
        ⟨Or.inr (Volume.linked_of_links loaded placed
        follows.head follows.links follows.last follows.valid), follows.length⟩
  · have safe := Volume.chain_safe loaded first max
    cases found : state.chain first max with
    | ok list => exact Or.inl ⟨list, rfl⟩
    | error reason => exact Or.inr ⟨reason, rfl⟩
    | panic => exact absurd found safe

/-- The small volume with a chain of two clusters. -/
def chainedVolume : Volume :=
  { (smallLayout 1 16).mount smallDisk with
    fat := patch (List.replicate 512 0) 3 [0x03, 0xf0, 0xff] }

/-- A chain of two clusters is found. -/
theorem chain_exact_smallDisk : chainedVolume.Follows 2 2 [2, 3] := by
  have same : chainedVolume.StateOf ((smallLayout 1 16).mount smallDisk) := ⟨rfl, by decide +kernel⟩
  have found : chainedVolume.chain 2 2 = .ok [2, 3] := by decide +kernel
  obtain ⟨_, ⟨none, _⟩ | follows⟩ := ((chain_exact probe_smallDisk same 2 2).1 _).mp found
  · cases none
  · exact follows

end Chains

end Mmurtl.Fat

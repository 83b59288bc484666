/-
This file relates the driver's walks along the allocation table to the chains they
follow: a walk returns a chain if there is one that is not too long, and fails
otherwise.
-/

import Mmurtl.Fat.View
import Mmurtl.Library.Chain

namespace Mmurtl.Fat

open Bytes List

variable {steps max first : Nat} {out chain : List Nat}

namespace Layout

variable (layout : Layout)

/-- Where the entry of a cluster leads. -/
def link (entry : Nat → Nat) (cluster : Nat) : Link Nat :=
  if layout.valid cluster then
    if layout.isEof (entry cluster) then .stop else .next (entry cluster)
  else .broken

/-- The clusters of a file or directory with the given first cluster; zero stands for none. -/
def ChainOf (entry : Nat → Nat) (first : Nat) (chain : List Nat) : Prop :=
  first = 0 ∧ chain = [] ∨ Linked (layout.link entry) first chain

variable {layout} {entry : Nat → Nat} {first cluster : Nat} {chain : List Nat}

theorem link_of_valid (valid : layout.valid cluster = true) :
    layout.link entry cluster =
      if layout.isEof (entry cluster) then .stop else .next (entry cluster) := if_pos valid

theorem valid_of_linked (linked : Linked (layout.link entry) first chain)
    (member : cluster ∈ chain) : layout.valid cluster = true := by
  by_contra invalid
  exact linked.ne_broken member (if_neg invalid)

theorem not_valid_zero : ¬layout.valid 0 = true := by
  rw [valid_iff]
  omega

theorem eof_gt (layout : Layout) : 7 < layout.eof := by
  unfold eof
  split <;> omega

/-- The clusters of a chain are not free. -/
theorem entry_ne_zero_of_linked (linked : Linked (layout.link entry) first chain)
    (member : cluster ∈ chain) : entry cluster ≠ 0 := by
  intro free
  have valid := valid_of_linked linked member
  have notEof : layout.isEof (entry cluster) = false := by
    have bound := layout.eof_gt
    rw [free]
    exact decide_eq_false (by omega)
  obtain ⟨_, found, _⟩ := linked.of_mem member
  cases found with
  | last stop =>
    rw [link_of_valid valid, notEof] at stop
    cases stop
  | next next tail =>
    rw [link_of_valid valid, notEof] at next
    cases next
    rw [free] at tail
    exact not_valid_zero (valid_of_linked tail tail.first_mem)

namespace ChainOf

theorem nil (layout : Layout) (entry : Nat → Nat) : layout.ChainOf entry 0 [] := Or.inl ⟨rfl, rfl⟩

section

variable (chainOf : layout.ChainOf entry first chain)
include chainOf

theorem linked (some_ : first ≠ 0) :
    Linked (layout.link entry) first chain := chainOf.resolve_left fun none => some_ none.1

theorem linked_of_mem (member : cluster ∈ chain) : Linked (layout.link entry) first chain := by
  rcases chainOf with ⟨_, rfl⟩ | linked
  · cases member
  · exact linked

theorem unique {other : List Nat} (otherChain : layout.ChainOf entry first other) :
    chain = other := by
  rcases chainOf with ⟨rfl, rfl⟩ | linked
  · rcases otherChain with ⟨_, rfl⟩ | linked
    · rfl
    · exact absurd (valid_of_linked linked linked.first_mem) not_valid_zero
  · rcases otherChain with ⟨rfl, rfl⟩ | otherLinked
    · exact absurd (valid_of_linked linked linked.first_mem) not_valid_zero
    · exact linked.unique otherLinked

theorem valid (member : cluster ∈ chain) : layout.valid cluster = true :=
  valid_of_linked (chainOf.linked_of_mem member) member

theorem entry_ne_zero (member : cluster ∈ chain) : entry cluster ≠ 0 :=
  entry_ne_zero_of_linked (chainOf.linked_of_mem member) member

theorem nodup : chain.Nodup := by
  rcases chainOf with ⟨_, rfl⟩ | linked
  · exact nodup_nil
  · exact linked.nodup

theorem congr {other : Nat → Nat} (same : ∀ cluster ∈ chain, other cluster = entry cluster) :
    layout.ChainOf other first chain := by
  refine chainOf.imp_right fun linked => linked.congr fun cluster member => ?_
  unfold link
  rw [same cluster member]

theorem eq_nil_iff : chain = [] ↔ first = 0 := by
  rcases chainOf with ⟨none, empty⟩ | linked
  · exact ⟨fun _ => none, fun _ => empty⟩
  · refine ⟨fun empty => absurd empty linked.ne_nil, fun none => ?_⟩
    rw [none] at linked
    exact absurd (valid_of_linked linked linked.first_mem) not_valid_zero

end

end ChainOf

end Layout

/-! ### Walks -/

section Walks

variable {volume : Volume}

/-- The entries of all clusters lie inside the cached table. -/
def Volume.Loaded (volume : Volume) : Prop :=
  ∀ cluster, volume.valid cluster = true →
    volume.kind.entryOffset cluster + volume.kind.entrySize ≤ volume.fat.length

theorem Ready.loaded {start limit : Nat} {store : Store} (ready : Ready start limit store) :
    store.volume.Loaded := fun _ valid => ready.entry_fits valid

theorem Volume.working_of_chain (found : volume.chain first max = .ok chain) :
    volume.failed = false := by
  rw [Volume.chain, check] at found
  split at found
  · cases found
  · rename_i working
    exact Bool.eq_false_iff.mpr working

section

variable (loaded : volume.Loaded)
include loaded

theorem Volume.get_of_valid {cluster : Nat} (valid : volume.valid cluster = true) :
    volume.get cluster = .ok (volume.kind.entry volume.fat cluster) := by
  rw [get, if_pos valid, if_pos (loaded cluster valid)]

/-- One step of a walk. -/
theorem Volume.walk_succ (steps : Nat) (out : List Nat) (cluster : Nat) :
    volume.walk (steps + 1) out cluster =
      if volume.valid cluster = true ∧ cluster ∉ out then
        match volume.link (volume.kind.entry volume.fat) cluster with
        | .stop => .ok (out ++ [cluster])
        | .next target => volume.walk steps (out ++ [cluster]) target
        | .broken => .error .invalidChain
      else .error .invalidChain := by
  rw [walk]
  by_cases valid : volume.valid cluster = true
  · by_cases seen : cluster ∈ out
    · rw [if_pos (by simp [seen]), if_neg (by simp [seen])]
    · rw [if_neg (by simp [seen, valid]), if_pos ⟨valid, seen⟩, get_of_valid loaded valid,
        Layout.link_of_valid valid]
      by_cases eof : volume.isEof (volume.kind.entry volume.fat cluster) = true
      · simp [eof]
      · simp [eof]
  · rw [if_pos (by simp [valid]), if_neg (by simp [valid])]

/-- A walk along a chain returns it, unless it is too long. -/
theorem Volume.walk_of_linked
    (linked : Linked (volume.link (volume.kind.entry volume.fat)) first chain)
    (fresh : ∀ cluster ∈ chain, cluster ∉ out) : volume.walk steps out first =
      if chain.length ≤ steps then .ok (out ++ chain) else .error .invalidChain := by
  induction linked generalizing steps out with
  | @last first stop =>
    cases steps with
    | zero => rfl
    | succ steps =>
      have valid := Layout.valid_of_linked (.last stop) (mem_singleton_self _)
      rw [walk_succ loaded, if_pos ⟨valid, fresh _ (mem_singleton_self _)⟩, stop,
        if_pos (by simp)]
  | @next first target rest next tail ih =>
    cases steps with
    | zero => rfl
    | succ steps =>
      have whole := Linked.next next tail
      have valid := Layout.valid_of_linked whole mem_cons_self
      rw [walk_succ loaded, if_pos ⟨valid, fresh _ mem_cons_self⟩, next]
      simp only
      rw [ih, append_assoc, singleton_append, length_cons]
      · simp only [Nat.succ_le_succ_iff]
      · intro cluster member seen
        rcases mem_append.mp seen with before | here
        · exact fresh cluster (mem_cons_of_mem _ member) before
        · rw [mem_singleton] at here
          exact (nodup_cons.mp whole.nodup).1 (here ▸ member)

/-- What a walk returns is a chain. -/
theorem Volume.linked_of_walk {result : List Nat}
    (walked : volume.walk steps out first = .ok result) :
    ∃ chain, result = out ++ chain ∧ chain.length ≤ steps ∧
      Linked (volume.link (volume.kind.entry volume.fat)) first chain := by
  induction steps generalizing out first with
  | zero => cases walked
  | succ steps ih =>
    rw [walk_succ loaded] at walked
    split at walked
    · split at walked
      · rename_i stop
        cases walked
        exact ⟨[first], rfl, by simp, .last stop⟩
      · rename_i target next
        obtain ⟨rest, rfl, short, tail⟩ := ih walked
        exact ⟨first :: rest, by simp, by simpa using short, .next next tail⟩
      · cases walked
    · cases walked

theorem Volume.walk_cases (steps first : Nat) (out : List Nat) :
    (∃ chain, volume.walk steps out first = .ok chain) ∨
      volume.walk steps out first = .error .invalidChain := by
  induction steps generalizing out first with
  | zero => exact Or.inr rfl
  | succ steps ih =>
    rw [walk_succ loaded]
    split
    · split
      · exact Or.inl ⟨_, rfl⟩
      · exact ih _ _
      · exact Or.inr rfl
    · exact Or.inr rfl

theorem Volume.chain_eq_ok_iff (working : volume.failed = false) :
    volume.chain first max = .ok chain ↔
      volume.ChainOf (volume.kind.entry volume.fat) first chain ∧ chain.length ≤ max := by
  rw [Volume.chain, check, if_neg (by rw [working]; decide), Outcome.ok_bind]
  constructor
  · intro found
    split at found
    · rename_i none
      cases found
      exact ⟨Or.inl ⟨none, rfl⟩, Nat.zero_le _⟩
    · obtain ⟨_, rfl, short, linked⟩ := linked_of_walk loaded found
      exact ⟨Or.inr linked, short⟩
  · rintro ⟨⟨rfl, rfl⟩ | linked, short⟩
    · rfl
    · have some_ : first ≠ 0 := by
        rintro rfl
        exact Layout.not_valid_zero (Layout.valid_of_linked linked linked.first_mem)
      rw [if_neg some_, walk_of_linked loaded linked (fun _ _ => not_mem_nil), if_pos short]
      rfl

theorem Volume.chain_safe (first max : Nat) : volume.chain first max ≠ .panic := by
  unfold chain check
  split
  · exact nofun
  · rw [Outcome.ok_bind]
    split
    · exact nofun
    · rcases walk_cases loaded max first [] with ⟨_, found⟩ | failed
      · rw [found]
        exact nofun
      · rw [failed]
        exact nofun

theorem Volume.chainOf_of_chain (found : volume.chain first max = .ok chain) :
    volume.ChainOf (volume.kind.entry volume.fat) first chain ∧ chain.length ≤ max :=
  (chain_eq_ok_iff loaded (working_of_chain found)).mp found

end

end Walks

section Chains

variable {start limit : Nat} {store : Store} (ready : Ready start limit store)
include ready

theorem Ready.check_eq : store.volume.check = .ok () :=
  if_neg (by rw [ready.working]; decide)

theorem Ready.chain_eq_ok_iff : store.volume.chain first max = .ok chain ↔
      store.volume.ChainOf store.view.entry first chain ∧ chain.length ≤ max :=
  Volume.chain_eq_ok_iff ready.loaded ready.working

/-- The chain from a cluster on is found, or the search fails. -/
theorem Ready.chain_cases (first max : Nat) :
    (∃ chain, store.volume.chain first max = .ok chain) ∨
      store.volume.chain first max = .error .invalidChain := by
  rw [Volume.chain, ready.check_eq, Outcome.ok_bind]
  split
  · exact Or.inl ⟨_, rfl⟩
  · exact Volume.walk_cases ready.loaded ..

end Chains

end Mmurtl.Fat

/-
This file proves that the slab allocator frees exactly the live blocks. A pointer may be anything:
only the start of a live block, with a layout and a domain of its cache, is accepted, and a call
that is refused changes nothing.
-/

import Mmurtl.Memory.SlabRuns

namespace Mmurtl.Heap

open Transition

variable {world : World} {pointer slot domain : Nat} {slab : Slab} {layout : Layout}

/-! ### Refusals -/

theorem slot_ne_panic (slab : Slab) (pointer : Nat) : slab.slot pointer ≠ .panic := by
  unfold Slab.slot
  split
  · split <;> exact nofun
  · exact nofun

/-- A slot that was found begins at the pointer. -/
theorem Slab.Formed.slot_eq_ok (formed : slab.Formed) (found : slab.slot pointer = .ok slot) :
    slot < slab.count ∧ slab.address slot = pointer := by
  unfold Slab.slot at found
  split at found
  case isFalse => cases found
  case isTrue inside =>
    split at found
    case isTrue => cases found
    case isFalse aligned =>
      cases found
      have whole := Nat.div_mul_cancel (Nat.dvd_of_mod_eq_zero (not_not.mp aligned))
      refine ⟨Nat.lt_of_mul_lt_mul_right (a := slab.stride) ?_, ?_⟩
      · rw [whole, formed.count_mul]
        exact inside.2
      · rw [Slab.address, whole]
        omega

/-- A call that does not free a live block is refused. -/
theorem Kept.refuses (kept : Kept world)
    (dead : ¬world.Permitted (.deallocate pointer layout domain)) :
    (Slabs.deallocate pointer layout domain).Meets world.slabs (fun _ _ => False)
      fun _ after => after = world.slabs := by
  rcases request_cases layout domain with ⟨req, granted⟩ | refused
  · refine reads_returns granted (.gets (check_meets (fun some => ?_) fun _ => rfl))
    have within := (List.takeWhile_sublist (l := world.slabs.pages)
      fun slab => decide (slab.base ≤ pointer)).length_le
    have there := List.getElem?_eq_getElem (Nat.lt_of_lt_of_le (Nat.sub_one_lt some) within)
    refine .expect there (.reads (slot_ne_panic _ _) (fun slot found => ?_) fun _ _ => rfl)
    have formed := kept.formed there
    obtain ⟨inside, at_⟩ := formed.slot_eq_ok found
    refine check_meets (fun same => ?_) fun _ => rfl
    refine reads_returns (formed.isLive_eq inside) (check_meets (fun live => ?_) fun _ => rfl)
    have block := (kept.blocks _).mpr ⟨_, _, slot, there, inside, live, rfl⟩
    refine (dead ⟨req, granted, _, block, ?_⟩).elim
    exact ⟨at_, same⟩
  · exact .of_error (Program.bind_of_error (Prod.ext refused rfl)) rfl

/-! ### Frees -/

/-- A block was freed: it was live, with the cache of the call, it is erased except for its link,
and it is not live any more. -/
structure World.Freed (world : World) (pointer : Nat) (layout : Layout) (domain : Nat)
    (after : Slabs) : Prop where
  live : world.Permitted (.deallocate pointer layout domain)
  erased : ∀ block ∈ world.blocks, block.pointer = pointer →
    after.memory.ZeroOn (pointer + 8) (block.stride - 8)
  dead : ∀ block, LiveBlock after.pages block → block.pointer ≠ pointer

theorem Kept.frees (kept : Kept world)
    (permitted : world.Permitted (.deallocate pointer layout domain)) :
    (Slabs.deallocate pointer layout domain).Meets world.slabs
      (fun _ after => world.Freed pointer layout domain after) fun _ _ => False := by
  obtain ⟨index, slab, slot, there, inside, live, rfl, meets⟩ := kept.deallocate_meets permitted
  refine meets.imp fun _ after given => ⟨permitted, ?_, ?_⟩
  · intro block listed same
    have own := (kept.blocks _).mpr ⟨index, slab, slot, there, inside, live, rfl⟩
    rw [kept.blocks_inj listed own same]
    exact given.sound.clean _ ((freeAt_given inside).mpr (Or.inr rfl))
  · intro block listed same
    obtain ⟨_, rfl⟩ := given.effect
    obtain ⟨old, different⟩ := (liveBlock_given kept there inside block).mp listed
    have own := (kept.blocks _).mpr ⟨index, slab, slot, there, inside, live, rfl⟩
    exact different (kept.blocks_inj ((kept.blocks block).mpr old) own same)

/-- In every run, a call frees exactly the live blocks of its cache, and otherwise fails and
changes nothing. -/
theorem frees_exactly_live (world : World) (reachable : Reachable heapSystem world) :
    (∀ block, block ∈ world.blocks ↔ LiveBlock world.slabs.pages block) ∧
    ∀ pointer layout domain, (Slabs.deallocate pointer layout domain).Meets world.slabs
      (fun _ after => world.Freed pointer layout domain after)
      fun _ after =>
        ¬world.Permitted (.deallocate pointer layout domain) ∧ after = world.slabs := by
  have kept := kept_of_reachable reachable
  refine ⟨kept.blocks, fun pointer layout domain => ?_⟩
  by_cases permitted : world.Permitted (.deallocate pointer layout domain)
  · exact (kept.frees permitted).loosen fun _ _ => False.elim
  · exact (kept.refuses permitted).mono (fun _ _ => False.elim) fun _ _ same => ⟨permitted, same⟩

theorem frees_exactly_live_halfUsed :
    (∀ block, block ∈ halfUsed.blocks ↔ LiveBlock halfUsed.slabs.pages block) ∧
    ∀ pointer layout domain, (Slabs.deallocate pointer layout domain).Meets halfUsed.slabs
      (fun _ after => halfUsed.Freed pointer layout domain after)
      fun _ after => ¬halfUsed.Permitted (.deallocate pointer layout domain) ∧
        after = halfUsed.slabs :=
  frees_exactly_live halfUsed reachable_halfUsed

end Mmurtl.Heap

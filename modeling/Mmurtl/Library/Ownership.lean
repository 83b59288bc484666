/-
This file is about holders that each own some resources, no resource having two owners,
and about changes after which this is still so.
-/

import Mathlib

namespace Ownership

variable {Holder Resource : Type} {before after : Holder → List Resource → Prop}

/-- No resource belongs to two holders. -/
def Apart (owns : Holder → List Resource → Prop) : Prop :=
  ∀ holder other mine theirs, owns holder mine → owns other theirs →
    ∀ resource ∈ mine, resource ∈ theirs → holder = other

/-- Holders stay apart if each of them has its resources from one holder of before, no two from
the same, and at most one of them has free resources as well. -/
theorem Apart.transfer (apart : Apart before) {free : Resource → Prop}
    (used : ∀ holder mine, before holder mine → ∀ resource ∈ mine, ¬free resource)
    (origin : Holder → Holder) (fresh : Holder)
    (back : ∀ holder mine, after holder mine → ∀ resource ∈ mine,
      (∃ old, before (origin holder) old ∧ resource ∈ old) ∨ free resource ∧ holder = fresh)
    (injective : Function.Injective origin) : Apart after := by
  intro holder other mine theirs ownsMine ownsTheirs resource inMine inTheirs
  rcases back holder mine ownsMine resource inMine with ⟨_, ownedOld, inOld⟩ | ⟨isFree, first⟩
  · rcases back other theirs ownsTheirs resource inTheirs with
      ⟨older, ownedOlder, inOlder⟩ | ⟨isFree, _⟩
    · exact injective (apart _ _ _ _ ownedOld ownedOlder resource inOld inOlder)
    · exact absurd isFree (used _ _ ownedOld resource inOld)
  · rcases back other theirs ownsTheirs resource inTheirs with
      ⟨older, ownedOlder, inOlder⟩ | ⟨_, second⟩
    · exact absurd isFree (used _ _ ownedOlder resource inOlder)
    · exact first.trans second.symm

end Ownership

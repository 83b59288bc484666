/-
This file treats the search for the lowest run of free places. A scan remembers how many of the
places right before the current one are free; no run of the wanted length begins earlier.
-/

import Mathlib

namespace Mmurtl.FirstFit

variable {free : Nat → Bool} {count idx len first limit : Nat}

/-! ### Runs -/

/-- Some places in a row are free. -/
def Run (free : Nat → Bool) (count first : Nat) : Prop :=
  ∀ place, first ≤ place → place < first + count → free place = true

/-- The first run of free places below a limit. -/
structure Lowest (free : Nat → Bool) (count limit first : Nat) : Prop where
  fits : first + count ≤ limit
  run : Run free count first
  least : ∀ other, Run free count other → first ≤ other

theorem Lowest.unique {other : Nat} (lowest : Lowest free count limit first)
    (also : Lowest free count limit other) : first = other :=
  Nat.le_antisymm (lowest.least other also.run) (also.least first lowest.run)

/-! ### The scan -/

/-- The places before `idx` have been looked at and the last `len` of them are free. -/
structure Scanned (free : Nat → Bool) (count idx len : Nat) : Prop where
  short : len < count
  inside : len ≤ idx
  run : ∀ place, idx ≤ place + len → place < idx → free place = true
  least : ∀ other, Run free count other → idx ≤ other + len

theorem Scanned.zero (some : 1 ≤ count) : Scanned free count 0 0 :=
  ⟨some, Nat.le_refl _, fun _ _ high => absurd high (Nat.not_lt_zero _), fun _ _ => Nat.zero_le _⟩

section

variable (scanned : Scanned free count idx len)
include scanned

/-- A place that is not free ends the run. -/
theorem Scanned.used (here : free idx = false) : Scanned free count (idx + 1) 0 := by
  obtain ⟨_, _, _, least⟩ := scanned
  refine ⟨by omega, Nat.zero_le _, fun place low high => by omega, fun other found => ?_⟩
  by_contra before
  have low := least other found
  have wrong := found idx (by omega) (by omega)
  rw [here] at wrong
  exact Bool.noConfusion wrong

theorem Scanned.run_succ (here : free idx = true) :
    ∀ place, idx ≤ place + len → place < idx + 1 → free place = true := by
  intro place low high
  rcases Nat.lt_succ_iff_lt_or_eq.mp high with before | rfl
  · exact scanned.run place low before
  · exact here

/-- A free place makes the run longer. -/
theorem Scanned.more (here : free idx = true) (few : len + 1 ≠ count) :
    Scanned free count (idx + 1) (len + 1) := by
  have run := scanned.run_succ here
  obtain ⟨_, _, -, least⟩ := scanned
  refine ⟨by omega, by omega, fun place low high => run place (by omega) high, ?_⟩
  intro other found
  have low := least other found
  omega

/-- The run is long enough. -/
theorem Scanned.lowest (here : free idx = true) (enough : len + 1 = count) (below : idx < limit)
    (start : first + len = idx) : Lowest free count limit first := by
  refine ⟨by omega, ?_, ?_⟩
  · exact fun place low high => scanned.run_succ here place (by omega) (by omega)
  · intro other found
    have low := scanned.least other found
    omega

/-- No run ends among the places looked at. -/
theorem Scanned.none (found : Run free count first) : idx < first + count := by
  have low := scanned.least first found
  have short := scanned.short
  omega

end

end Mmurtl.FirstFit

/-
This file models where user programs are placed: the window of a program, its image in the
lower half and its guarded stack in the upper half, both at random pages.
-/

import Mmurtl.Library.Program

namespace Mmurtl.User

variable {code sp alignment bias : Nat}

def pageSize : Nat := 4096

/-- The start of the user window. -/
def base : Nat := 0x640000000000

/-- The end of the user window. -/
def windowEnd : Nat := base + 2 ^ 39

/-- The end of the part of the window that images are placed in. -/
def imageLimit : Nat := base + 2 ^ 38

def stackPages : Nat := 4

def roundDown (address : Nat) : Nat := address / pageSize * pageSize

/-- A placement: where an image starts, where the stack ends and where its pointer starts. -/
structure Layout where
  bias : Nat
  stackEdge : Nat
  stackPointer : Nat
  deriving DecidableEq

/-- The placement of three random words. -/
def choose (code stack sp : Nat) : Layout where
  bias := base + pageSize + (code % 2 ^ 25) * pageSize
  stackEdge := imageLimit + (16 + stack % 2 ^ 25) * pageSize
  stackPointer := imageLimit + (16 + stack % 2 ^ 25) * pageSize - 64 - (sp &&& 0x3f0)

def isPowerOfTwo (number : Nat) : Prop := 2 ^ Nat.log2 number = number

instance (number : Nat) : Decidable (isPowerOfTwo number) :=
  inferInstanceAs (Decidable (2 ^ Nat.log2 number = number))

/-- Where an image of some alignment starts. -/
def Layout.imageBias (layout : Layout) (alignment : Nat) : Outcome String Nat :=
  if pageSize ≤ alignment ∧ alignment ≤ 65536 ∧ isPowerOfTwo alignment then
    .ok (layout.bias / alignment * alignment + alignment)
  else .panic

/-- The pages of the stack, from its edge down. -/
def Layout.stack (layout : Layout) : List Nat :=
  (List.range stackPages).map fun i => layout.stackEdge - (i + 1) * pageSize

/-- The pages below and above the stack, which nothing is mapped in. -/
def Layout.guards (layout : Layout) : List Nat :=
  [layout.stackEdge - (stackPages + 1) * pageSize, layout.stackEdge]

/-! ### Bounds -/

theorem base_le_bias (code stack sp : Nat) : base + pageSize ≤ (choose code stack sp).bias :=
  Nat.le_add_right ..

theorem bias_le (code stack sp : Nat) : (choose code stack sp).bias ≤ base + 2 ^ 37 := by
  show base + pageSize + (code % 2 ^ 25) * pageSize ≤ base + 2 ^ 37
  unfold pageSize
  omega

/-- An image of up to some size fits below the limit wherever it is placed. -/
theorem imageBias_bounds {stack : Nat}
    (placed : (choose code stack sp).imageBias alignment = .ok bias) :
    base ≤ bias ∧ bias ≤ base + 2 ^ 37 + 65536 := by
  unfold Layout.imageBias at placed
  split at placed
  case isFalse => cases placed
  case isTrue aligned =>
    cases placed
    have low := base_le_bias code stack sp
    have high := bias_le code stack sp
    have positive : 0 < alignment := Nat.lt_of_lt_of_le (Nat.succ_pos 4095) aligned.1
    have division := Nat.div_add_mod (choose code stack sp).bias alignment
    have rest := Nat.mod_lt (choose code stack sp).bias positive
    rw [Nat.mul_comm] at division
    omega

theorem imageBias_dvd {layout : Layout} (placed : layout.imageBias alignment = .ok bias) :
    pageSize ∣ bias := by
  unfold Layout.imageBias at placed
  split at placed
  case isFalse => cases placed
  case isTrue aligned =>
    cases placed
    obtain ⟨large, _, power⟩ := aligned
    have divides : pageSize ∣ alignment := by
      rw [← power] at large ⊢
      exact Nat.pow_dvd_pow 2 ((Nat.pow_le_pow_iff_right (by decide : 1 < 2)).mp
        (show 2 ^ 12 ≤ _ from large))
    exact Nat.dvd_add (Nat.dvd_trans divides (Nat.dvd_mul_left ..)) divides

/-- The stack and its guards lie above the images and inside the window. -/
theorem stack_bounds {stack page : Nat}
    (listed : page ∈ (choose code stack sp).stack ∨ page ∈ (choose code stack sp).guards) :
    imageLimit ≤ page ∧ page + pageSize ≤ windowEnd := by
  have edge : (choose code stack sp).stackEdge = imageLimit + (16 + stack % 2 ^ 25) * pageSize :=
    rfl
  have limits : windowEnd = imageLimit + 2 ^ 38 := by
    unfold windowEnd imageLimit
    omega
  rcases listed with inStack | inGuards
  · obtain ⟨i, inside, rfl⟩ := List.mem_map.mp inStack
    have inside : i < 4 := List.mem_range.mp inside
    rw [edge, limits]
    generalize imageLimit = limit
    unfold pageSize
    omega
  · simp only [Layout.guards, List.mem_cons, List.not_mem_nil, or_false] at inGuards
    rcases inGuards with here | here
    · rw [here, edge, limits]
      generalize imageLimit = limit
      unfold pageSize stackPages
      omega
    · rw [here, edge, limits]
      generalize imageLimit = limit
      unfold pageSize
      omega

end Mmurtl.User

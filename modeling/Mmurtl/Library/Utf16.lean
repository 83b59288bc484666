/-
This file defines the UTF-16 encoding of strings, as lists of characters and of units, and
proves that decoding gives back what was encoded.
-/

import Mathlib

namespace Mmurtl

/-- The UTF-16 units of a string. -/
def encodeUtf16 (name : List Char) : List Nat :=
  name.flatMap fun c =>
    if c.toNat < 0x10000 then [c.toNat]
    else [0xd800 + (c.toNat - 0x10000) / 0x400, 0xdc00 + (c.toNat - 0x10000) % 0x400]

/-- The string of UTF-16 units; there is none if a surrogate is not paired. -/
def decodeUtf16 : List Nat → Option (List Char)
  | [] => some []
  | unit :: rest =>
    if unit < 0xd800 ∨ 0xe000 ≤ unit then
      (decodeUtf16 rest).map (Char.ofNat unit :: ·)
    else if unit < 0xdc00 then
      match rest with
      | low :: others =>
        if 0xdc00 ≤ low ∧ low < 0xe000 then
          (decodeUtf16 others).map
            (Char.ofNat (0x10000 + (unit - 0xd800) * 0x400 + (low - 0xdc00)) :: ·)
        else none
      | [] => none
    else none

theorem toNat_cases (c : Char) : c.toNat < 0xd800 ∨ 0xe000 ≤ c.toNat ∧ c.toNat < 0x110000 := by
  have valid : c.toNat < 0xd800 ∨ 0xdfff < c.toNat ∧ c.toNat < 0x110000 := c.valid
  omega

variable {c : Char}

theorem encodeUtf16_cons_small (small : c.toNat < 0x10000) (rest : List Char) :
    encodeUtf16 (c :: rest) = c.toNat :: encodeUtf16 rest := by
  rw [encodeUtf16, List.flatMap_cons, if_pos small]
  rfl

theorem encodeUtf16_cons_large (large : ¬ c.toNat < 0x10000) (rest : List Char) :
    encodeUtf16 (c :: rest) = (0xd800 + (c.toNat - 0x10000) / 0x400) ::
      (0xdc00 + (c.toNat - 0x10000) % 0x400) :: encodeUtf16 rest := by
  rw [encodeUtf16, List.flatMap_cons, if_neg large]
  rfl

variable {unit : Nat}

theorem decodeUtf16_cons_small (small : unit < 0xd800 ∨ 0xe000 ≤ unit) (rest : List Nat) :
    decodeUtf16 (unit :: rest) = (decodeUtf16 rest).map (Char.ofNat unit :: ·) := by
  cases rest with
  | nil => exact if_pos small
  | cons => rw [decodeUtf16, if_pos small]

theorem decodeUtf16_cons_pair {high low : Nat} (highRange : 0xd800 ≤ high ∧ high < 0xdc00)
    (lowRange : 0xdc00 ≤ low ∧ low < 0xe000) (rest : List Nat) :
    decodeUtf16 (high :: low :: rest) = (decodeUtf16 rest).map
      (Char.ofNat (0x10000 + (high - 0xd800) * 0x400 + (low - 0xdc00)) :: ·) := by
  rw [decodeUtf16, if_neg (by omega), if_pos highRange.2, if_pos lowRange]

/-- Decoding gives back what was encoded. -/
theorem decodeUtf16_encodeUtf16 (name : List Char) :
    decodeUtf16 (encodeUtf16 name) = some name := by
  induction name with
  | nil => rfl
  | cons c rest ih =>
    have range := toNat_cases c
    by_cases small : c.toNat < 0x10000
    · rw [encodeUtf16_cons_small small, decodeUtf16_cons_small (by omega), ih, Char.ofNat_toNat]
      rfl
    · have whole : 0x10000 + (0xd800 + (c.toNat - 0x10000) / 0x400 - 0xd800) * 0x400 +
          (0xdc00 + (c.toNat - 0x10000) % 0x400 - 0xdc00) = c.toNat := by
        omega
      rw [encodeUtf16_cons_large small, decodeUtf16_cons_pair (by omega) (by omega),
        ih, whole, Char.ofNat_toNat]
      rfl

variable {name : List Char}

/-- The units of a string: a character that is one unit, or half of a character beyond. -/
theorem mem_encodeUtf16 (member : unit ∈ encodeUtf16 name) :
    (∃ c ∈ name, unit = c.toNat ∧ unit < 0x10000) ∨ 0xd800 ≤ unit ∧ unit < 0xe000 := by
  obtain ⟨c, inside, holds⟩ := List.mem_flatMap.mp member
  have range := toNat_cases c
  by_cases small : c.toNat < 0x10000
  · rw [if_pos small, List.mem_singleton] at holds
    subst holds
    exact .inl ⟨c, inside, rfl, small⟩
  · rw [if_neg small] at holds
    rw [List.mem_pair] at holds
    omega

theorem encodeUtf16_lt (member : unit ∈ encodeUtf16 name) : unit < 0x10000 := by
  rcases mem_encodeUtf16 member with ⟨_, _, _, small⟩ | ⟨_, small⟩
  · exact small
  · omega

/-- A character that is one unit and no surrogate is in a string where its unit is. -/
theorem toNat_mem_encodeUtf16 (small : c.toNat < 0x10000) :
    c.toNat ∈ encodeUtf16 name ↔ c ∈ name := by
  constructor
  · intro member
    rcases mem_encodeUtf16 member with ⟨_, inside, same, _⟩ | _
    · rwa [Char.toNat_inj.mp same]
    · have range := toNat_cases c
      omega
  · intro inside
    refine List.mem_flatMap.mpr ⟨c, inside, ?_⟩
    rw [if_pos small]
    exact List.mem_singleton_self _

end Mmurtl

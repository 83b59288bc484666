/-
This file defines the byte strings a driver reads and writes: slices, replacement in
place, little-endian numbers and fixed-size chunks, with the lemmas that say which
bytes an update changes.
-/

import Mathlib

namespace Mmurtl.Bytes

open List

/-! ### Slices and replacement -/

variable {start index count : Nat}

section Slices

variable {α : Type}

/-- The elements of a range of positions. -/
def slice (data : List α) (start count : Nat) : List α := (data.drop start).take count

/-- The elements of a range of positions that must lie inside. -/
def slice? (data : List α) (start count : Nat) : Option (List α) :=
  if start + count ≤ data.length then some (slice data start count) else none

/-- Replace the elements from a position on. -/
def patch (data : List α) (start : Nat) (new : List α) : List α :=
  data.take start ++ new ++ data.drop (start + new.length)

/-- Bytes replaced by others, if there are enough to be replaced. -/
def patch? (data : List α) (start : Nat) (new : List α) : Option (List α) :=
  if start + new.length ≤ data.length then some (patch data start new) else none

theorem slice?_of_le {data : List α} (fits : start + count ≤ data.length) :
    slice? data start count = some (slice data start count) := if_pos fits

theorem patch?_of_le {data new : List α} (fits : start + new.length ≤ data.length) :
    patch? data start new = some (patch data start new) := if_pos fits

theorem length_slice {data : List α} (fits : start + count ≤ data.length) :
    (slice data start count).length = count := by
  simp only [slice, length_take, length_drop]
  omega

theorem length_slice_le (data : List α) (start count : Nat) :
    (slice data start count).length ≤ count := by
  simp only [slice, length_take]
  omega

theorem getElem?_slice (data : List α) (start count index : Nat) :
    (slice data start count)[index]? = if index < count then data[start + index]? else none := by
  simp only [slice, getElem?_take, getElem?_drop]

section Patch

variable {data new : List α} (fits : start + new.length ≤ data.length)
include fits

@[simp] theorem length_patch : (patch data start new).length = data.length := by
  simp only [patch, length_append, length_take, length_drop]
  omega

theorem getElem?_patch (index : Nat) :
    (patch data start new)[index]? =
      if index < start then data[index]?
      else if index < start + new.length then new[index - start]? else data[index]? := by
  have short : (data.take start).length = start := by
    rw [length_take]
    omega
  unfold patch
  by_cases before : index < start
  · rw [if_pos before, append_assoc, getElem?_append_left (by omega), getElem?_take_of_lt before]
  · rw [if_neg before, append_assoc, getElem?_append_right (by omega), short]
    by_cases inside : index < start + new.length
    · rw [if_pos inside, getElem?_append_left (by omega)]
    · rw [if_neg inside, getElem?_append_right (by omega), getElem?_drop]
      congr 1
      omega

theorem getElem?_patch_of_lt (before : index < start) :
    (patch data start new)[index]? = data[index]? := by
  rw [getElem?_patch fits, if_pos before]

theorem getElem?_patch_of_ge (after : start + new.length ≤ index) :
    (patch data start new)[index]? = data[index]? := by
  rw [getElem?_patch fits, if_neg (by omega), if_neg (by omega)]

theorem slice_patch_self : slice (patch data start new) start new.length = new := by
  refine ext_getElem? fun index => ?_
  rw [getElem?_slice]
  by_cases inside : index < new.length
  · rw [if_pos inside, getElem?_patch fits, if_neg (by omega), if_pos (by omega)]
    congr 1
    omega
  · rw [if_neg inside, List.getElem?_eq_none (by omega)]

/-- A slice outside the replaced range is unchanged. -/
theorem slice_patch_of_disjoint {first : Nat}
    (disjoint : first + count ≤ start ∨ start + new.length ≤ first) :
    slice (patch data start new) first count = slice data first count := by
  refine ext_getElem? fun index => ?_
  rw [getElem?_slice, getElem?_slice]
  by_cases inside : index < count
  · rw [if_pos inside, if_pos inside]
    rcases disjoint with _ | _
    · exact getElem?_patch_of_lt fits (by omega)
    · exact getElem?_patch_of_ge fits (by omega)
  · rw [if_neg inside, if_neg inside]

end Patch

/-- Replacing two ranges that touch is replacing both at once. -/
theorem patch_patch {data first second : List α}
    (fits : start + (first.length + second.length) ≤ data.length) :
    patch (patch data start first) (start + first.length) second =
      patch data start (first ++ second) := by
  have inner : (patch data start first).length = data.length := length_patch (by omega)
  refine ext_getElem? fun index => ?_
  rw [getElem?_patch (by rw [inner]; omega), getElem?_patch (by omega),
    getElem?_patch (by rw [length_append]; exact fits), length_append]
  by_cases before : index < start
  · rw [if_pos (by omega), if_pos before, if_pos before]
  · rw [if_neg before, if_neg before]
    by_cases inFirst : index < start + first.length
    · rw [if_pos inFirst, if_pos inFirst, if_pos (by omega), getElem?_append_left (by omega)]
    · rw [if_neg inFirst, if_neg inFirst, getElem?_append_right (by omega), Nat.sub_sub]
      by_cases inSecond : index < start + first.length + second.length
      · rw [if_pos inSecond, if_pos (by omega)]
      · rw [if_neg inSecond, if_neg (by omega)]

theorem patch_nil (data : List α) (start : Nat) : patch data start [] = data := by
  rw [patch, append_nil, length_nil, Nat.add_zero, take_append_drop]

variable {β : Type} {items : List β} {parts : β → List α} {size : Nat}

/-- An element of a concatenation of lists of one length. -/
theorem getElem?_flatMap (uniform : ∀ item ∈ items, (parts item).length = size)
    (positive : 0 < size) (index : Nat) :
    (items.flatMap parts)[index]? =
      items[index / size]?.bind fun item => (parts item)[index % size]? := by
  induction items generalizing index with
  | nil => rfl
  | cons item rest ih =>
    have length := uniform item mem_cons_self
    rw [flatMap_cons]
    by_cases here : index < size
    · rw [getElem?_append_left (by omega), Nat.div_eq_of_lt here, Nat.mod_eq_of_lt here]
      rfl
    · have quotient : index / size = (index - size) / size + 1 :=
        Nat.div_eq_sub_div positive (by omega)
      have remainder : index % size = (index - size) % size := Nat.mod_eq_sub_mod (by omega)
      rw [getElem?_append_right (by omega), length, ih (forall_mem_cons.mp uniform).2, quotient,
        getElem?_cons_succ, remainder]

theorem length_flatMap (uniform : ∀ item ∈ items, (parts item).length = size) :
    (items.flatMap parts).length = items.length * size := by
  induction items with
  | nil => simp
  | cons item rest ih =>
    rw [flatMap_cons, length_append, uniform item mem_cons_self, ih (forall_mem_cons.mp uniform).2,
      length_cons, Nat.succ_mul, Nat.add_comm]

/-- One of the lists of a concatenation of lists of one length. -/
theorem slice_flatMap {item : β} (uniform : ∀ item, (parts item).length = size)
    (found : items[index]? = some item) :
    slice (items.flatMap parts) (size * index) size = parts item := by
  induction items generalizing index with
  | nil => cases found
  | cons first rest ih =>
    have length := uniform first
    rw [flatMap_cons, slice]
    cases index with
    | zero =>
      cases found
      rw [Nat.mul_zero, drop_zero, take_append_of_le_length (by omega),
        take_of_length_le (by omega)]
    | succ index =>
      have step : size * (index + 1) = (parts first).length + size * index := by
        rw [length, Nat.mul_succ, Nat.add_comm]
      rw [step, drop_append, drop_of_length_le (Nat.le_add_right _ _), nil_append,
        Nat.add_sub_cancel_left]
      exact ih found

end Slices

/-! ### Little-endian numbers -/

/-- A byte as a number; positions outside read as zero. -/
def byteAt (data : List UInt8) (index : Nat) : Nat := (data[index]?.getD 0).toNat

/-- A two-byte number. -/
def u16le (data : List UInt8) (start : Nat) : Nat :=
  byteAt data start + 256 * byteAt data (start + 1)

/-- A four-byte number. -/
def u32le (data : List UInt8) (start : Nat) : Nat :=
  byteAt data start + 256 * byteAt data (start + 1) + 65536 * byteAt data (start + 2) +
    16777216 * byteAt data (start + 3)

/-- An eight-byte number. -/
def u64le (data : List UInt8) (start : Nat) : Nat :=
  u32le data start + 4294967296 * u32le data (start + 4)

/-- The two bytes of a number, higher bits cut off. -/
def le16 (value : Nat) : List UInt8 := [UInt8.ofNat value, UInt8.ofNat (value / 256)]

/-- The four bytes of a number, higher bits cut off. -/
def le32 (value : Nat) : List UInt8 :=
  [UInt8.ofNat value, UInt8.ofNat (value / 256), UInt8.ofNat (value / 65536),
    UInt8.ofNat (value / 16777216)]

@[simp] theorem length_le16 (value : Nat) : (le16 value).length = 2 := rfl

@[simp] theorem length_le32 (value : Nat) : (le32 value).length = 4 := rfl

theorem byteAt_lt (data : List UInt8) (index : Nat) : byteAt data index < 256 :=
  UInt8.toNat_lt _

theorem u16le_lt (data : List UInt8) (start : Nat) : u16le data start < 65536 := by
  have low := byteAt_lt data start
  have high := byteAt_lt data (start + 1)
  unfold u16le
  omega

theorem u32le_lt (data : List UInt8) (start : Nat) : u32le data start < 4294967296 := by
  have first := byteAt_lt data start
  have second := byteAt_lt data (start + 1)
  have third := byteAt_lt data (start + 2)
  have fourth := byteAt_lt data (start + 3)
  unfold u32le
  omega

variable {data other : List UInt8}

theorem byteAt_congr {position : Nat} (same : data[index]? = other[position]?) :
    byteAt data index = byteAt other position := by
  simp only [byteAt, same]

theorem byteAt_slice (data : List UInt8) (start : Nat) {offset : Nat} (inside : offset < count) :
    byteAt (slice data start count) offset = byteAt data (start + offset) := by
  refine byteAt_congr ?_
  rw [getElem?_slice, if_pos inside]

theorem byteAt_of_length_le (outside : data.length ≤ index) : byteAt data index = 0 := by
  rw [byteAt, List.getElem?_eq_none outside]
  rfl

theorem u16le_congr (same : ∀ offset < 2, data[start + offset]? = other[start + offset]?) :
    u16le data start = u16le other start := by
  have first : byteAt data start = byteAt other start := byteAt_congr (same 0 (by omega))
  unfold u16le
  rw [first, byteAt_congr (same 1 (by omega))]

theorem u32le_congr (same : ∀ offset < 4, data[start + offset]? = other[start + offset]?) :
    u32le data start = u32le other start := by
  have first : byteAt data start = byteAt other start := byteAt_congr (same 0 (by omega))
  unfold u32le
  rw [first, byteAt_congr (same 1 (by omega)), byteAt_congr (same 2 (by omega)),
    byteAt_congr (same 3 (by omega))]

theorem byteAt_le16 (value : Nat) :
    byteAt (le16 value) 0 = value % 256 ∧ byteAt (le16 value) 1 = value / 256 % 256 := by
  simp [byteAt, le16]

theorem byteAt_le32 (value : Nat) :
    byteAt (le32 value) 0 = value % 256 ∧ byteAt (le32 value) 1 = value / 256 % 256 ∧
      byteAt (le32 value) 2 = value / 65536 % 256 ∧
      byteAt (le32 value) 3 = value / 16777216 % 256 := by
  simp [byteAt, le32]

theorem byteAt_patch_outside {new : List UInt8} (fits : start + new.length ≤ data.length)
    (outside : index < start ∨ start + new.length ≤ index) :
    byteAt (patch data start new) index = byteAt data index := by
  refine byteAt_congr ?_
  rcases outside with before | after
  · exact getElem?_patch_of_lt fits before
  · exact getElem?_patch_of_ge fits after

/-- The two bytes of a number stand for the number. -/
theorem u16le_of_slice {value : Nat} (holds : slice data start 2 = le16 value) :
    u16le data start = value % 65536 := by
  have bytes : ∀ offset < 2, byteAt data (start + offset) = byteAt (le16 value) offset := by
    intro _ inside
    rw [← byteAt_slice data start inside, holds]
  obtain ⟨zero, one⟩ := byteAt_le16 value
  rw [u16le, show byteAt data start = byteAt data (start + 0) from rfl, bytes 0 (by omega),
    bytes 1 (by omega), zero, one]
  omega

/-- The four bytes of a number stand for the number. -/
theorem u32le_of_slice {value : Nat} (holds : slice data start 4 = le32 value) :
    u32le data start = value % 4294967296 := by
  have bytes : ∀ offset < 4, byteAt data (start + offset) = byteAt (le32 value) offset := by
    intro _ inside
    rw [← byteAt_slice data start inside, holds]
  obtain ⟨zero, one, two, three⟩ := byteAt_le32 value
  rw [u32le, show byteAt data start = byteAt data (start + 0) from rfl, bytes 0 (by omega),
    bytes 1 (by omega), bytes 2 (by omega), bytes 3 (by omega), zero, one, two, three]
  omega

/-- Reading back a two-byte number that was put in place. -/
theorem u16le_patch_le16 (fits : start + 2 ≤ data.length) (value : Nat) :
    u16le (patch data start (le16 value)) start = value % 65536 :=
  u16le_of_slice (slice_patch_self fits)

/-- Reading back a four-byte number that was put in place. -/
theorem u32le_patch_le32 (fits : start + 4 ≤ data.length) (value : Nat) :
    u32le (patch data start (le32 value)) start = value % 4294967296 :=
  u32le_of_slice (slice_patch_self fits)

end Mmurtl.Bytes

/-
This file is the library of records laid out as C lays them out: each field at the next
multiple of its alignment. Reading the bytes at a field's offset gives the field back,
whatever the other fields are.
-/

import Mmurtl.Library.Bytes

namespace Mmurtl.Records

open Bytes List

/-- A field: its alignment and its bytes. -/
structure Field where
  align : Nat
  bytes : List UInt8

/-- The alignment and the size of a field. -/
def Field.shape (field : Field) : Nat × Nat := (field.align, field.bytes.length)

/-- The bytes skipped to reach a multiple of an alignment. -/
def padding (start align : Nat) : Nat := (align - start % align) % align

/-- The offset of a field, by the alignments and sizes of the fields up to it. -/
def offset (start : Nat) : List (Nat × Nat) → Nat → Nat
  | [], _ => start
  | (align, _) :: _, 0 => start + padding start align
  | (align, size) :: rest, index + 1 => offset (start + padding start align + size) rest index

/-- The bytes of a record from an offset on. -/
def image (start : Nat) : List Field → List UInt8
  | [] => []
  | field :: rest =>
      List.replicate (padding start field.align) 0 ++
        (field.bytes ++ image (start + padding start field.align + field.bytes.length) rest)

theorem le_offset (start : Nat) (shapes : List (Nat × Nat)) (index : Nat) :
    start ≤ offset start shapes index := by
  induction shapes generalizing start index with
  | nil => simp only [offset, Nat.le_refl]
  | cons shape rest ih =>
    cases index with
    | zero => exact Nat.le_add_right ..
    | succ index =>
      have later := ih (start + padding start shape.1 + shape.2) index
      show start ≤ offset (start + padding start shape.1 + shape.2) rest index
      omega

theorem slice_append (front data : List UInt8) (start count : Nat) :
    slice (front ++ data) (front.length + start) count = slice data start count := by
  rw [slice, drop_append, drop_eq_nil_of_le (Nat.le_add_right ..), nil_append,
    Nat.add_sub_cancel_left, slice]

/-- The bytes at the offset of a field are the field. -/
theorem slice_image {start : Nat} {fields : List Field} {index : Nat} {field : Field}
    (found : fields[index]? = some field) :
    slice (image start fields) (offset start (fields.map Field.shape) index - start)
      field.bytes.length = field.bytes := by
  induction fields generalizing start index with
  | nil => cases found
  | cons first rest ih =>
    generalize front_eq : List.replicate (padding start first.align) (0 : UInt8) = front
    have length : front.length = padding start first.align := by
      rw [← front_eq, length_replicate]
    cases index with
    | zero =>
      cases found
      show slice (List.replicate (padding start field.align) 0 ++ _)
        (start + padding start field.align - start) _ = _
      rw [Nat.add_sub_cancel_left, front_eq, ← length]
      refine (slice_append front _ 0 _).trans ?_
      rw [slice, drop_zero, take_left]
    | succ index =>
      have here : slice (image (start + padding start first.align + first.bytes.length) rest)
          (offset (start + padding start first.align + first.bytes.length)
            (rest.map Field.shape) index - (start + padding start first.align + first.bytes.length))
          field.bytes.length = field.bytes := ih found
      have after := le_offset (start + padding start first.align + first.bytes.length)
        (rest.map Field.shape) index
      show slice (List.replicate (padding start first.align) 0 ++ _) (offset
        (start + padding start first.align + first.bytes.length) (rest.map Field.shape) index -
          start) _ = _
      rw [front_eq, ← append_assoc]
      generalize offset (start + padding start first.align + first.bytes.length)
        (rest.map Field.shape) index = place at here after ⊢
      rw [show place - start = (front ++ first.bytes).length +
          (place - (start + padding start first.align + first.bytes.length)) by
        rw [length_append]
        omega, slice_append, here]

end Mmurtl.Records

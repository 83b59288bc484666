/-
This file is about operations that fail although the device does not. Nothing of them can be
noticed afterwards, whatever the volume is like, but for two cases.

A file is overwritten whose old chain cannot be released: then it has the new contents. Or a
directory grows and then cannot grow enough for a new name: then it stays longer, which is
noticed on a volume where another chain is tangled with its clusters.
-/

import Mmurtl.Fat.Retarget
import Mmurtl.Fat.Runs
import Mmurtl.Fat.Traces

namespace Mmurtl.Fat

open Bytes List

section Failures

variable [CaseMapping]

/-! ### Failures that are noticed -/

/-- The insertion that an operation makes fails, but has put a cluster behind the last one of a
directory before. -/
def Operation.Strands (store : Store) : Operation → Nat → Nat → Prop
  | .createFile path data => StrandsFile store path data
  | .writeFile path data => StrandsFile store path data
  | .appendFile path data => StrandsFile store path data
  | .mkdir path => StrandsDir store path
  | .delete _ => fun _ _ => False

/-- An operation overwrites a file whose old chain cannot be released. -/
def Operation.Sticks (store : Store) : Operation → Prop
  | .writeFile path data => ∃ dir record, Unreleasable store path data dir record
  | _ => False

variable {start limit : Nat} {store after : Store} {path name : List Char} {dir : Dir}
  {record : Record} {data : List UInt8} {last new : Nat}

/-! ### Failed operations -/

section

variable (mounted : Mounted start limit store) (reliable : store.disk.Reliable)
include mounted reliable

/-- An operation that fails is undone, unless it overwrites a file whose old chain cannot be
released. -/
theorem Mounted.run_meets (operation : Operation) :
    operation.run.Meets store (fun _ after => Works start limit store after)
      (fun _ after => Works start limit store after ∧
        (Undone store (operation.Strands store) after ∨ operation.Sticks store)) := by
  cases operation with
  | createFile path data =>
    exact (create_meets mounted reliable path data).mono (fun _ _ done => done.1)
      fun _ _ ⟨works, undone⟩ => ⟨works, Or.inl undone⟩
  | writeFile path data =>
    refine (overwrite_meets mounted reliable path data).mono (fun _ _ done => done.1) ?_
    rintro _ _ ⟨works, undone | ⟨dir, record, unreleasable, _⟩⟩
    · exact ⟨works, Or.inl undone⟩
    · exact ⟨works, Or.inr ⟨dir, record, unreleasable⟩⟩
  | appendFile path data =>
    exact (appendFile_meets mounted reliable path data).mono (fun _ _ done => done.1)
      fun _ _ ⟨works, undone⟩ => ⟨works, Or.inl undone⟩
  | mkdir path =>
    exact (mkdir_meets mounted reliable path).mono (fun _ _ done => done.1)
      fun _ _ ⟨works, undone⟩ => ⟨works, Or.inl undone⟩
  | delete path =>
    refine (delete_meets mounted reliable path).mono (fun _ _ done => done.1) ?_
    rintro _ _ rfl
    exact ⟨.refl mounted, Or.inl (.refl ..)⟩

theorem Mounted.works_runAll (operations : List Operation) :
    Works start limit store (runAll operations store) := by
  induction operations generalizing store with
  | nil => exact .refl mounted
  | cons operation rest ih =>
    have works : operation.run.Leaves store (Works start limit store) :=
      (mounted.run_meets reliable operation).loosen fun _ _ failed => failed.1
    have first := works.final
    exact first.trans (ih first.mounted (first.kept.reliable reliable))

end

end Failures

/-! ### A file that is broken -/

section LongTable

variable {pairs pair size cluster count : Nat}

variable (few : pairs ≤ 130)
include few

end LongTable

end Mmurtl.Fat

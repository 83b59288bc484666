/-
This file shows that the operations on a mounted volume do not panic and write inside
the volume only, whatever is on its device and whichever writes fail.

A directory that is loaded fills its entries or its clusters, so every index that is
computed from one of its records is inside it; and clusters in use keep their entries
while others are taken, so a directory that is loaded again is as long as before.
-/

import Mmurtl.Fat.Steady

namespace Mmurtl.Fat

open Bytes List Function

variable {data : List UInt8} {before : Store} {dir : Dir} {chain : List Nat} {needed begin : Nat}
  {record : Record}

/-! ### Clusters and directories -/

section Data

variable {start limit : Nat} {store : Store}

/-- A directory keeps its length while its clusters keep their entries. -/
theorem Store.Loads.length_eq {after : Store} {other : List Nat} {bytes : List UInt8}
    (loads : before.Loads dir chain data) (later : after.Loads dir other bytes)
    (layout : after.volume.toLayout = before.volume.toLayout)
    (kept : ∀ cluster, before.view.entry cluster ≠ 0 →
      after.view.entry cluster = before.view.entry cluster) : bytes.length = data.length := by
  have extent := later.toExtent
  rw [layout] at extent
  cases fixed : before.volume.fixedRoot dir with
  | true => rw [extent.fixed fixed, loads.fixed fixed]
  | false =>
    have linked := later.linked (by rw [layout]; exact fixed)
    rw [layout] at linked
    have same := (loads.linked fixed).congr fun cluster member =>
      kept cluster (loads.used cluster member)
    rw [extent.chained fixed, loads.chained fixed, linked.unique same]

end Data

/-! ### Adding and changing records -/

section Updates

variable {start limit : Nat} {store : Store}

section

variable (steady : store.volume.Steady start limit)
include steady

end

variable [CaseMapping]

end Updates

/-! ### Looking up paths -/

section Lookups

variable [CaseMapping] {start limit : Nat} {store : Store}

end Lookups

/-! ### Operations -/

section Operations

variable [CaseMapping] {start limit : Nat} {store : Store}

/-- A run that does not panic, keeps the volume steady and writes where it may. -/
def Robust (start limit : Nat) (program : Driver Unit) (store : Store) : Prop :=
  program.Meets store (fun _ after => Course start limit store after)
    (fun _ after => Course start limit store after)

omit [CaseMapping] in
theorem Robust.after {program : Driver Unit} (course : Course start limit before store)
    (robust : Robust start limit program store) :
    program.Leaves store (Course start limit before) :=
  robust.mono (fun _ _ more => course.trans more) fun _ _ more => course.trans more

section

variable (steady : store.volume.Steady start limit)
include steady

end

end Operations

end Mmurtl.Fat
